import Vds.LogSync.Run
import Vds.LogSync.Build
import Vds.WsApi.ProcessMessage

/-! `websocket_api::login` over the transaction log: it reads all blocks that are stored, whatever their
state, and adds a result for each that has a message of the user. -/

namespace Vds.WsApi.Login

open LogSync Transactions

/-- The rows of the reader: all blocks of the log, by falling `order_no`. -/
structure LogScan (db : Database) where
  rows : List (ConstDataBuffer × LogRecord)
  perm : rows.Perm (db.logRecords.entries.map fun e => (e.1, e.2))
  falling : rows.Pairwise fun a b => b.2.orderNo ≤ a.2.orderNo

variable (crypto : Crypto) (str : AsymmetricPublicKey → Expected StdString)

def userResult (publicKey : StdString) (message : CreateUserTransaction) : StdString × JsonValue :=
  (text "result", .object [(text "public_key", stringValue publicKey),
    (text "user_profile_id", bufferValue message.userProfileId)])

/-- The handler of `walk_messages`; the state is what the operation has added to the reply. `str` is
`asymmetric_public_key::str`. -/
def visit (login : StdString) : Message → EStateM Error Properties Bool
  | .createUser message =>
    if login = message.userEmail then
      match str message.userPublicKey with
      | .error e => throw e
      | .ok publicKey => do
        modify (· ++ [userResult publicKey message])
        return false
    else return true
  | _ => return true

/-- The body of the loop. That the walk was stopped is not looked at. -/
def readRow (login : StdString) (row : LogRecord) : EStateM Error Properties Unit :=
  match TransactionBlock.create crypto row.data with
  | .error e => throw e
  | .ok block => do
    let _ ← block.walkMessages crypto (visit str login)

def readRows (login : StdString) : List (ConstDataBuffer × LogRecord) → EStateM Error Properties Unit
  | [] => return ()
  | row :: rows => do
    readRow crypto str login row.2
    readRows login rows

def notFound : StdString × JsonValue := (text "error", stringValue (text "User not found"))

/-- `websocket_api::login` -/
def login {db : Database} (scan : LogScan db) (login : StdString) : Expected Properties :=
  match readRows crypto str login scan.rows [] with
  | .error e _ => .error e
  | .ok () result =>
    .ok (if result.any fun property => property.1 = text "result" then result else result ++ [notFound])

/-! ### What is asked of the answer -/

/-- `db_desc_order(t1.order_no)` -/
def orderByDesc (db : Database) : LogScan db where
  rows := (db.logRecords.entries.map fun e => (e.1, e.2)).insertionSort
    fun a b => b.2.orderNo ≤ a.2.orderNo
  perm := List.perm_insertionSort _ _
  falling :=
    have : Std.Total fun a b : ConstDataBuffer × LogRecord => b.2.orderNo ≤ a.2.orderNo :=
      ⟨fun a b => Int64.le_total b.2.orderNo a.2.orderNo⟩
    have : IsTrans (ConstDataBuffer × LogRecord) fun a b => b.2.orderNo ≤ a.2.orderNo :=
      ⟨fun _ _ _ h h' => Int64.le_trans h' h⟩
    List.pairwise_insertionSort _ _

/-- The messages that can be read, and the failure that ends them. -/
def readMessages : Nat → ConstDataBuffer → List Message × Option Error
  | _, [] => ([], none)
  | 0, _ => ([], some .outOfFuel)
  | n + 1, data =>
    match getMessage crypto data with
    | .error e _ => ([], some e)
    | .ok message rest => ((readMessages n rest).1.cons message, (readMessages n rest).2)

def rowMessages (row : LogRecord) : List Message × Option Error :=
  match TransactionBlock.create crypto row.data with
  | .error e => ([], some e)
  | .ok block => readMessages crypto block.blockMessages.length block.blockMessages

/-- A `create_user` message with the login name. -/
def names (login : StdString) : Message → Option CreateUserTransaction
  | .createUser message => if login = message.userEmail then some message else none
  | _ => none

/-- The messages of the row that create the user. -/
def users (login : StdString) (row : LogRecord) : List CreateUserTransaction :=
  (rowMessages crypto row).1.filterMap (names login)

/-- The answer is that of the last applied block that creates the user. -/
structure AnswersFromLog {db : Database} (scan : LogScan db) (name : StdString) : Prop where
  found : (∃ row ∈ scan.rows, row.2.state.haveState ∧ users crypto name row.2 ≠ []) →
    ∃ row ∈ scan.rows, row.2.state.haveState ∧
      (∀ other ∈ scan.rows, other.2.state.haveState → users crypto name other.2 ≠ [] →
        other.2.orderNo ≤ row.2.orderNo) ∧
      ∃ message ∈ users crypto name row.2, ∃ publicKey, str message.userPublicKey = .ok publicKey ∧
        login crypto str scan name = .ok [userResult publicKey message]
  missing : login crypto str scan name = .ok [notFound] ↔
    ∀ row ∈ scan.rows, row.2.state.haveState → users crypto name row.2 = []

/-- The row can be read as far as the message that creates the user, and the key there can be written. -/
def Readable (name : StdString) (row : LogRecord) : Prop :=
  match users crypto name row with
  | [] => (rowMessages crypto row).2 = none
  | message :: _ => ∃ publicKey, str message.userPublicKey = .ok publicKey

/-- All blocks can be read, and no block but one that is applied creates the user. -/
structure Undisputed (db : Database) (name : StdString) : Prop where
  readable : ∀ id row, db.logRecords.lookup id = some row → Readable crypto str name row
  once : ∀ id row id' row', db.logRecords.lookup id = some row → db.logRecords.lookup id' = some row' →
    users crypto name row ≠ [] → users crypto name row' ≠ [] → id = id'
  applied : ∀ id row, db.logRecords.lookup id = some row → users crypto name row ≠ [] →
    row.state.haveState

/-! ### One row -/

/-- What a row adds to the reply. -/
def added (name : StdString) (row : LogRecord) : Expected Properties :=
  match users crypto name row with
  | [] =>
    match (rowMessages crypto row).2 with
    | some e => .error e
    | none => .ok []
  | message :: _ => (str message.userPublicKey).map fun publicKey => [userResult publicKey message]

variable {crypto str} {name : StdString}

theorem visit_skip {message : Message} (h : names name message = none) (result : Properties) :
    visit str name message result = .ok true result := by
  cases message with
  | createUser user =>
    change (if name = user.userEmail then some user else none) = none at h
    split_ifs at h with huser
    unfold visit
    simp only [if_neg huser]
    rfl
  | _ => rfl

theorem visit_found {message : Message} {user : CreateUserTransaction}
    (h : names name message = some user) (result : Properties) :
    visit str name message result =
      match str user.userPublicKey with
      | .error e => .error e result
      | .ok publicKey => .ok false (result ++ [userResult publicKey user]) := by
  cases message with
  | createUser user' =>
    change (if name = user'.userEmail then some user' else none) = some user at h
    split_ifs at h with huser
    cases h
    unfold visit
    simp only [if_pos huser]
    cases str user.userPublicKey <;> rfl
  | _ => cases h

/-- A walk ends with the first message that creates the user, or where the data ends. -/
theorem walk_visit (n : Nat) (data : ConstDataBuffer) (result : Properties) :
    walk crypto (visit str name) n data result =
      match (readMessages crypto n data).1.filterMap (names name) with
      | [] =>
        match (readMessages crypto n data).2 with
        | some e => .error e result
        | none => .ok true result
      | user :: _ =>
        match str user.userPublicKey with
        | .error e => .error e result
        | .ok publicKey => .ok false (result ++ [userResult publicKey user]) := by
  induction n generalizing data with
  | zero => cases data <;> rfl
  | succ n ih =>
    cases data with
    | nil => rfl
    | cons b data =>
      unfold walk readMessages
      cases hm : getMessage crypto (b :: data) with
      | error e rest => rfl
      | ok message rest =>
        simp only
        cases hnames : names name message with
        | none =>
          rw [List.filterMap_cons_none hnames, ← ih rest, StateError.bind_of_ok (visit_skip hnames result)]
          rfl
        | some user =>
          rw [List.filterMap_cons_some hnames]
          simp only
          cases hstr : str user.userPublicKey with
          | error e =>
            have hvisit : visit str name message result = .error e result := by
              rw [visit_found hnames, hstr]
            rw [StateError.bind_of_error hvisit]
          | ok publicKey =>
            have hvisit : visit str name message result =
                .ok false (result ++ [userResult publicKey user]) := by
              rw [visit_found hnames, hstr]
            rw [StateError.bind_of_ok hvisit]
            rfl

theorem readRow_eq (row : LogRecord) (result : Properties) :
    readRow crypto str name row result =
      match added crypto str name row with
      | .error e => .error e result
      | .ok properties => .ok () (result ++ properties) := by
  unfold readRow added users rowMessages
  cases TransactionBlock.create crypto row.data with
  | error e => rfl
  | ok block =>
    simp only
    have hwalk := @walk_visit crypto str name block.blockMessages.length
      block.blockMessages result
    change (block.walkMessages crypto (visit str name) >>= fun _ => pure ()) result = _
    change block.walkMessages crypto (visit str name) result = _ at hwalk
    generalize (readMessages crypto block.blockMessages.length block.blockMessages).1.filterMap
      (names name) = found at hwalk ⊢
    generalize (readMessages crypto block.blockMessages.length block.blockMessages).2 = failure
      at hwalk ⊢
    cases found with
    | nil =>
      cases failure with
      | some e => exact StateError.bind_of_error hwalk
      | none =>
        rw [StateError.bind_of_ok hwalk]
        simp only [List.append_nil]
        rfl
    | cons user rest =>
      simp only at hwalk ⊢
      cases hstr : str user.userPublicKey with
      | error e =>
        rw [hstr] at hwalk
        exact StateError.bind_of_error hwalk
      | ok publicKey =>
        rw [hstr] at hwalk
        rw [StateError.bind_of_ok hwalk]
        rfl

theorem added_of_nil {row : LogRecord} (h : users crypto name row = []) :
    added crypto str name row =
      match (rowMessages crypto row).2 with
      | some e => .error e
      | none => .ok [] := by
  unfold added
  rw [h]

theorem added_of_cons {row : LogRecord} {user : CreateUserTransaction}
    {rest : List CreateUserTransaction} (h : users crypto name row = user :: rest) :
    added crypto str name row =
      (str user.userPublicKey).map fun publicKey => [userResult publicKey user] := by
  unfold added
  rw [h]

theorem readable_iff (row : LogRecord) :
    Readable crypto str name row ↔ ∃ properties, added crypto str name row = .ok properties := by
  unfold Readable
  cases h : users crypto name row with
  | nil =>
    rw [added_of_nil h]
    cases (rowMessages crypto row).2 with
    | none => exact iff_of_true rfl ⟨[], rfl⟩
    | some e => exact iff_of_false (fun h => by cases h) (fun ⟨_, h⟩ => by cases h)
  | cons user rest =>
    rw [added_of_cons h]
    change (∃ publicKey, str user.userPublicKey = .ok publicKey) ↔ _
    cases str user.userPublicKey with
    | ok publicKey => exact iff_of_true ⟨publicKey, rfl⟩ ⟨_, rfl⟩
    | error e => exact iff_of_false (fun ⟨_, h⟩ => by cases h) (fun ⟨_, h⟩ => by cases h)

/-- A row that creates the user adds one result, of its first message that does; another adds nothing. -/
theorem added_eq_ok {row : LogRecord} {properties : Properties}
    (h : added crypto str name row = .ok properties) :
    users crypto name row = [] ∧ properties = [] ∨
      ∃ user ∈ users crypto name row, ∃ publicKey, str user.userPublicKey = .ok publicKey ∧
        properties = [userResult publicKey user] := by
  cases husers : users crypto name row with
  | nil =>
    rw [added_of_nil husers] at h
    cases hfailure : (rowMessages crypto row).2 with
    | none =>
      rw [hfailure] at h
      cases h
      exact .inl ⟨rfl, rfl⟩
    | some e =>
      rw [hfailure] at h
      cases h
  | cons user rest =>
    rw [added_of_cons husers] at h
    cases hstr : str user.userPublicKey with
    | error e =>
      rw [hstr] at h
      cases h
    | ok publicKey =>
      rw [hstr] at h
      cases h
      exact .inr ⟨user, List.mem_cons_self, publicKey, hstr, rfl⟩

/-! ### All rows -/

/-- What the rows add, where all of them can be read. -/
def addedAll (crypto : Crypto) (str : AsymmetricPublicKey → Expected StdString) (name : StdString)
    (rows : List (ConstDataBuffer × LogRecord)) : Properties :=
  rows.flatMap fun row => ((added crypto str name row.2).toOption).getD []

theorem readRows_ok {rows : List (ConstDataBuffer × LogRecord)}
    (h : ∀ row ∈ rows, Readable crypto str name row.2) (result : Properties) :
    readRows crypto str name rows result = .ok () (result ++ addedAll crypto str name rows) := by
  induction rows generalizing result with
  | nil =>
    rw [addedAll, List.flatMap_nil, List.append_nil]
    rfl
  | cons row rows ih =>
    obtain ⟨hrow, hrows⟩ := List.forall_mem_cons.1 h
    obtain ⟨properties, hadded⟩ := (readable_iff row.2).1 hrow
    have hread : readRow crypto str name row.2 result = .ok () (result ++ properties) := by
      rw [readRow_eq, hadded]
    have hcons : addedAll crypto str name (row :: rows) =
        properties ++ addedAll crypto str name rows := by
      rw [addedAll, List.flatMap_cons, hadded]
      rfl
    unfold readRows
    rw [StateError.bind_of_ok hread, ih hrows, hcons, List.append_assoc]

theorem readRows_error {rows : List (ConstDataBuffer × LogRecord)}
    (h : ¬ ∀ row ∈ rows, Readable crypto str name row.2) (result : Properties) :
    ∃ e result', readRows crypto str name rows result = .error e result' := by
  induction rows generalizing result with
  | nil => exact absurd (fun _ hrow => absurd hrow List.not_mem_nil) h
  | cons row rows ih =>
    unfold readRows
    cases hadded : added crypto str name row.2 with
    | error e =>
      have hread : readRow crypto str name row.2 result = .error e result := by rw [readRow_eq, hadded]
      exact ⟨e, result, StateError.bind_of_error hread⟩
    | ok properties =>
      have hread : readRow crypto str name row.2 result = .ok () (result ++ properties) := by
        rw [readRow_eq, hadded]
      rw [StateError.bind_of_ok hread]
      apply ih
      intro hrows
      exact h (List.forall_mem_cons.2 ⟨(readable_iff row.2).2 ⟨properties, hadded⟩, hrows⟩)

theorem mem_addedAll {rows : List (ConstDataBuffer × LogRecord)} {property : StdString × JsonValue}
    (h : property ∈ addedAll crypto str name rows) : ∃ publicKey message,
      property = userResult publicKey message := by
  obtain ⟨row, -, hmem⟩ := List.mem_flatMap.1 h
  cases hadded : added crypto str name row.2 with
  | error e =>
    rw [hadded] at hmem
    cases hmem
  | ok properties =>
    rw [hadded] at hmem
    change property ∈ properties at hmem
    rcases added_eq_ok hadded with ⟨-, rfl⟩ | ⟨user, -, publicKey, -, rfl⟩
    · cases hmem
    · exact ⟨publicKey, user, List.mem_singleton.1 hmem⟩

/-- The reply has the results of all rows, or the error if there is none. -/
theorem login_eq {db : Database} (scan : LogScan db)
    (h : ∀ row ∈ scan.rows, Readable crypto str name row.2) :
    login crypto str scan name = .ok (if addedAll crypto str name scan.rows = [] then [notFound]
      else addedAll crypto str name scan.rows) := by
  unfold login
  rw [readRows_ok h []]
  simp only [List.nil_append]
  cases hall : addedAll crypto str name scan.rows with
  | nil => rfl
  | cons property rest =>
    obtain ⟨publicKey, message, rfl⟩ := mem_addedAll (hall ▸ List.mem_cons_self)
    rfl

theorem userResult_ne_notFound (publicKey : StdString) (message : CreateUserTransaction)
    (rest : Properties) : userResult publicKey message :: rest ≠ [notFound] := by
  intro h
  have hname : text "result" = text "error" := congrArg Prod.fst (List.cons.inj h).1
  exact absurd hname (by decide)

/-! ### The condition -/

/-- Two items that give something give two results. -/
theorem two_le_length_flatMap {α β : Type} {items : List α} {f : α → List β} {a b : α} (ha : a ∈ items)
    (hb : b ∈ items) (hne : a ≠ b) (hfa : f a ≠ []) (hfb : f b ≠ []) :
    2 ≤ (items.flatMap f).length := by
  have hpos : ∀ {c} {rest : List α}, c ∈ rest → f c ≠ [] → 1 ≤ (rest.flatMap f).length := by
    intro c rest hc hfc
    obtain ⟨x, hx⟩ := List.exists_mem_of_ne_nil _ hfc
    exact List.length_pos_of_mem (List.mem_flatMap.2 ⟨c, hc, hx⟩)
  induction items with
  | nil => cases ha
  | cons item items ih =>
    rw [List.flatMap_cons, List.length_append]
    rcases List.mem_cons.1 ha with rfl | ha'
    · have hitem := List.length_pos_of_ne_nil hfa
      have hrest := hpos ((List.mem_cons.1 hb).resolve_left hne.symm) hfb
      omega
    · rcases List.mem_cons.1 hb with rfl | hb'
      · have hitem := List.length_pos_of_ne_nil hfb
        have hrest := hpos ha' hfa
        omega
      · have hrest := ih ha' hb'
        omega

theorem flatMap_eq_of_only {α β : Type} {items : List α} {f : α → List β} {a : α} (hnodup : items.Nodup)
    (ha : a ∈ items) (honly : ∀ b ∈ items, b ≠ a → f b = []) : items.flatMap f = f a := by
  obtain ⟨before, after, rfl⟩ := List.append_of_mem ha
  obtain ⟨hfresh, -⟩ := List.nodup_cons.1 (List.nodup_middle.1 hnodup)
  have hbefore : before.flatMap f = [] := List.flatMap_eq_nil_iff.2 fun b hb =>
    honly b (List.mem_append_left _ hb) fun h => hfresh (List.mem_append_left _ (h ▸ hb))
  have hafter : after.flatMap f = [] := List.flatMap_eq_nil_iff.2 fun b hb =>
    honly b (List.mem_append_right _ (List.mem_cons_of_mem _ hb)) fun h =>
      hfresh (List.mem_append_right _ (h ▸ hb))
  rw [List.flatMap_append, List.flatMap_cons, hbefore, hafter, List.nil_append, List.append_nil]

section Scan

variable {db : Database} (scan : LogScan db)

theorem mem_scan {id : ConstDataBuffer} {row : LogRecord} :
    (id, row) ∈ scan.rows ↔ db.logRecords.lookup id = some row := by
  rw [scan.perm.mem_iff, ← Option.mem_def, AList.mem_lookup_iff, List.mem_map]
  constructor
  · rintro ⟨e, he, heq⟩
    cases heq
    exact he
  · exact fun he => ⟨_, he, rfl⟩

theorem eq_of_id {id : ConstDataBuffer} {row row' : LogRecord} (h : (id, row) ∈ scan.rows)
    (h' : (id, row') ∈ scan.rows) : row = row' :=
  Option.some.inj (((mem_scan scan).1 h).symm.trans ((mem_scan scan).1 h'))

theorem nodup_scan : scan.rows.Nodup := by
  refine scan.perm.nodup_iff.2 ?_
  have hkeys : (db.logRecords.entries.map fun e => e.1).Nodup := db.logRecords.nodupKeys
  refine List.Nodup.of_map Prod.fst ?_
  rw [List.map_map]
  exact hkeys

/-- What a row adds where it can be read. -/
theorem added_of_readable {row : LogRecord} (h : Readable crypto str name row) :
    ((added crypto str name row).toOption.getD [] = [] ↔ users crypto name row = []) ∧
      (users crypto name row ≠ [] → ∃ user ∈ users crypto name row, ∃ publicKey,
        str user.userPublicKey = .ok publicKey ∧
          (added crypto str name row).toOption.getD [] = [userResult publicKey user]) := by
  obtain ⟨properties, hadded⟩ := (readable_iff row).1 h
  rw [hadded]
  change (properties = [] ↔ _) ∧ (_ → ∃ user ∈ _, ∃ publicKey, _ ∧ properties = _)
  rcases added_eq_ok hadded with ⟨husers, rfl⟩ | ⟨user, hmem, publicKey, hstr, rfl⟩
  · exact ⟨iff_of_true rfl husers, fun hne => absurd husers hne⟩
  · refine ⟨iff_of_false (List.cons_ne_nil _ _) (List.ne_nil_of_mem hmem), fun _ => ?_⟩
    exact ⟨user, hmem, publicKey, hstr, rfl⟩

theorem addedAll_eq_nil (hread : ∀ row ∈ scan.rows, Readable crypto str name row.2) :
    addedAll crypto str name scan.rows = [] ↔ ∀ row ∈ scan.rows, users crypto name row.2 = [] := by
  unfold addedAll
  rw [List.flatMap_eq_nil_iff]
  exact forall₂_congr fun row hrow => (added_of_readable (hread row hrow)).1

theorem readable_of_login {properties : Properties} (h : login crypto str scan name = .ok properties) :
    ∀ row ∈ scan.rows, Readable crypto str name row.2 := by
  by_contra hread
  obtain ⟨e, result, herror⟩ := readRows_error hread []
  unfold login at h
  rw [herror] at h
  cases h

/-- An answer that is that of the log comes from one block at most. -/
theorem undisputed_of_answers (h : AnswersFromLog crypto str scan name) :
    (∀ row ∈ scan.rows, Readable crypto str name row.2) ∧
      (∀ row ∈ scan.rows, users crypto name row.2 ≠ [] → row.2.state.haveState) ∧
      ∀ row ∈ scan.rows, ∀ row' ∈ scan.rows, users crypto name row.2 ≠ [] →
        users crypto name row'.2 ≠ [] → row = row' := by
  by_cases hnone : ∀ row ∈ scan.rows, row.2.state.haveState → users crypto name row.2 = []
  · have hlogin := h.missing.2 hnone
    have hread := readable_of_login scan hlogin
    have hempty : ∀ row ∈ scan.rows, users crypto name row.2 = [] := by
      rw [← addedAll_eq_nil scan hread]
      rw [login_eq scan hread] at hlogin
      split_ifs at hlogin with hall
      · exact hall
      · obtain ⟨property, rest, hcons⟩ := List.exists_cons_of_ne_nil hall
        obtain ⟨publicKey, message, rfl⟩ := mem_addedAll (hcons ▸ List.mem_cons_self)
        rw [hcons] at hlogin
        exact absurd (Except.ok.inj hlogin) (userResult_ne_notFound _ _ _)
    exact ⟨hread, fun row hrow hne => absurd (hempty row hrow) hne,
      fun row hrow _ _ hne => absurd (hempty row hrow) hne⟩
  · push Not at hnone
    obtain ⟨last, hlast, happlied, -, message, hmessage, publicKey, -, hlogin⟩ := h.found hnone
    have hread := readable_of_login scan hlogin
    have hall : addedAll crypto str name scan.rows = [userResult publicKey message] := by
      rw [login_eq scan hread] at hlogin
      split_ifs at hlogin with hall
      · exact absurd (Except.ok.inj hlogin).symm (userResult_ne_notFound _ _ _)
      · exact Except.ok.inj hlogin
    have honce : ∀ row ∈ scan.rows, ∀ row' ∈ scan.rows, users crypto name row.2 ≠ [] →
        users crypto name row'.2 ≠ [] → row = row' := by
      intro row hrow row' hrow' hne hne'
      by_contra hdiff
      have htwo : 2 ≤ (addedAll crypto str name scan.rows).length :=
        two_le_length_flatMap hrow hrow' hdiff
          (fun h => hne ((added_of_readable (hread row hrow)).1.1 h))
          (fun h => hne' ((added_of_readable (hread row' hrow')).1.1 h))
      rw [hall, List.length_singleton] at htwo
      exact absurd htwo (by decide)
    refine ⟨hread, fun row hrow hne => ?_, honce⟩
    rw [honce row hrow last hlast hne (List.ne_nil_of_mem hmessage)]
    exact happlied

end Scan

/-- The answer is that of the log exactly if all blocks can be read and the user is created in no block, or
in one that is applied. -/
theorem answersFromLog_iff {db : Database} (scan : LogScan db) (name : StdString) :
    AnswersFromLog crypto str scan name ↔ Undisputed crypto str db name := by
  constructor
  · intro h
    obtain ⟨hread, happlied, honce⟩ := undisputed_of_answers scan h
    refine ⟨fun id row hrow => ?_, fun id row id' row' hrow hrow' hne hne' => ?_, fun id row hrow => ?_⟩
    · exact hread (id, row) ((mem_scan scan).2 hrow)
    · exact congrArg Prod.fst (honce (id, row) ((mem_scan scan).2 hrow) (id', row')
        ((mem_scan scan).2 hrow') hne hne')
    · exact happlied (id, row) ((mem_scan scan).2 hrow)
  · rintro ⟨hreadable, honce, happlied⟩
    have hread : ∀ row ∈ scan.rows, Readable crypto str name row.2 :=
      fun row hrow => hreadable row.1 row.2 ((mem_scan scan).1 hrow)
    have hsame : ∀ row ∈ scan.rows, ∀ row' ∈ scan.rows, users crypto name row.2 ≠ [] →
        users crypto name row'.2 ≠ [] → row = row' := by
      intro row hrow row' hrow' hne hne'
      have hid := honce row.1 row.2 row'.1 row'.2 ((mem_scan scan).1 hrow) ((mem_scan scan).1 hrow')
        hne hne'
      exact Prod.ext hid (eq_of_id scan hrow (hid ▸ hrow'))
    by_cases hempty : ∀ row ∈ scan.rows, users crypto name row.2 = []
    · have hlogin : login crypto str scan name = .ok [notFound] := by
        rw [login_eq scan hread, if_pos ((addedAll_eq_nil scan hread).2 hempty)]
      refine ⟨?_, iff_of_true hlogin fun row hrow _ => hempty row hrow⟩
      rintro ⟨row, hrow, -, hne⟩
      exact absurd (hempty row hrow) hne
    · push Not at hempty
      obtain ⟨row, hrow, hne⟩ := hempty
      obtain ⟨user, huser, publicKey, hstr, hadded⟩ := (added_of_readable (hread row hrow)).2 hne
      have hall : addedAll crypto str name scan.rows = [userResult publicKey user] := by
        rw [← hadded]
        refine flatMap_eq_of_only (nodup_scan scan) hrow fun other hother hdiff => ?_
        refine (added_of_readable (hread other hother)).1.2 ?_
        by_contra hne'
        exact hdiff (hsame other hother row hrow hne' hne)
      have hlogin : login crypto str scan name = .ok [userResult publicKey user] := by
        rw [login_eq scan hread, hall]
        rfl
      have hstate := happlied row.1 row.2 ((mem_scan scan).1 hrow) hne
      constructor
      · refine fun _ => ⟨row, hrow, hstate, fun other hother _ hne' => ?_, user, huser, publicKey, hstr,
          hlogin⟩
        rw [hsame other hother row hrow hne' hne]
        exact Int64.le_refl _
      · refine iff_of_false (fun h => ?_) fun h => hne (h row hrow hstate)
        exact userResult_ne_notFound _ _ _ (Except.ok.inj (hlogin.symm.trans h))

/-- The first block of the log, and a block with a user that waits for an ancestor. -/
def waitingBlocks : List ConstDataBuffer :=
  [sampleRoot, sampleBlock 3 3 (sampleNode 1) [sampleId 2] [.createUser ⟨[1], ⟨sampleUser⟩, [], []⟩]]

/-- A user is found whose block is not applied. -/
theorem not_answersFromLog_waiting : ¬ ∀ (str : AsymmetricPublicKey → Expected StdString) blocks journal db
    (_ : Run sampleProvider {} blocks journal db) (scan : LogScan db) name,
    AnswersFromLog sampleProvider.crypto str scan name := by
  intro h
  have hs : (saveAll sampleProvider 9 waitingBlocks { db := {} }).any (fun t =>
      ((orderByDesc t.db).rows.all fun row =>
        !row.2.state.haveState || (users sampleProvider.crypto [1] row.2).isEmpty) &&
      ((login sampleProvider.crypto (fun key => .ok key.der) (orderByDesc t.db) [1]).toOption.all
        (·.all fun property => property.1 = text "result"))) = true := by
    decide +kernel
  obtain ⟨t, ht, hboth⟩ := (Option.any_eq_true ..).mp hs
  obtain ⟨hrows, hresults⟩ := Bool.and_eq_true_iff.1 hboth
  have hrun := Run.saveAll (t := { db := {} }) .refl ht
  have hanswer := (h (fun key => .ok key.der) _ _ _ hrun (orderByDesc t.db) [1]).missing.2 (by
    intro row hrow happlied
    have hrow' := List.all_eq_true.1 hrows row hrow
    rw [happlied] at hrow'
    exact List.isEmpty_iff.1 hrow')
  rw [hanswer] at hresults
  exact absurd hresults (by decide)

end Vds.WsApi.Login
