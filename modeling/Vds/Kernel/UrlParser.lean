import Vds.Kernel.Json
import Vds.Library.CallbackWalk

/-! `url_parser`: the parts of a network address, what it takes to read a formatted address
back, and the walk over a list of addresses. -/

namespace Vds

/-! ### Searches in a `std::string` -/

namespace StdString

/-- `std::string::find` of one character. -/
def find (text : StdString) (symbol : UInt8) (start : Nat) : Option Nat :=
  ((text.drop start).findIdx? (· == symbol)).map (start + ·)

/-- `std::string::find_last_of` for one character. -/
def findLastOf (text : StdString) (symbol : UInt8) : Option Nat :=
  (text.reverse.findIdx? (· == symbol)).map (text.length - 1 - ·)

/-- `std::string::operator []`, with the zero byte at the end. -/
def at? (text : StdString) (i : Nat) : UInt8 := text.getD i 0

def substr (text : StdString) (start : Nat) (count : Nat) : StdString := (text.drop start).take count

theorem findIdx_append {symbol : UInt8} {before after : StdString} (h : symbol ∉ before) :
    (before ++ symbol :: after).findIdx? (· == symbol) = some before.length := by
  have hnone : before.findIdx? (· == symbol) = none := by
    rw [List.findIdx?_eq_none_iff]
    intro b hb
    simp only [beq_eq_false_iff_ne]
    rintro rfl
    exact h hb
  simp [List.findIdx?_append, hnone, List.findIdx?_cons]

theorem find_append {symbol : UInt8} (done : StdString) {before after : StdString}
    (h : symbol ∉ before) :
    find (done ++ (before ++ symbol :: after)) symbol done.length
      = some (done.length + before.length) := by
  rw [find, List.drop_left, findIdx_append h]
  rfl

theorem find_none {symbol : UInt8} (done : StdString) {rest : StdString} (h : symbol ∉ rest) :
    find (done ++ rest) symbol done.length = none := by
  rw [find, List.drop_left, Option.map_eq_none_iff, List.findIdx?_eq_none_iff]
  intro b hb
  simp only [beq_eq_false_iff_ne]
  rintro rfl
  exact h hb

theorem findLastOf_append {symbol : UInt8} (before : StdString) {after : StdString}
    (h : symbol ∉ after) :
    findLastOf (before ++ symbol :: after) symbol = some before.length := by
  have hreverse : (before ++ symbol :: after).reverse
      = after.reverse ++ symbol :: before.reverse := by simp
  rw [findLastOf, hreverse, findIdx_append (by simpa using h)]
  simp only [List.length_append, List.length_cons, List.length_reverse, Option.map_some,
    Option.some.injEq]
  omega

/-- A search from the start that succeeds cuts the text at the first occurrence. -/
theorem find_cut {text : StdString} {symbol : UInt8} {p : Nat} (h : find text symbol 0 = some p) :
    symbol ∉ text.take p ∧ text = text.take p ++ symbol :: text.drop (p + 1) := by
  simp only [find, List.drop_zero, Nat.zero_add, Option.map_id',
    List.findIdx?_eq_some_iff_getElem] at h
  obtain ⟨hp, hsymbol, hbefore⟩ := h
  have hat : text[p] = symbol := by simpa using hsymbol
  constructor
  · intro hmem
    obtain ⟨i, hi, heq⟩ := List.mem_take_iff_getElem.mp hmem
    have hne := hbefore i (by omega)
    simp only [beq_iff_eq] at hne
    exact hne heq
  · conv_lhs => rw [← List.take_append_drop p text]
    rw [List.drop_eq_getElem_cons hp, hat]

end StdString

/-! ### `parse_network_address` -/

/-- An `invalid_operation` with its text. -/
structure InvalidOperation where
  what : StdString
  deriving DecidableEq, Repr

structure NetworkAddress where
  protocol : StdString
  server : StdString
  port : StdString
  path : StdString
  deriving DecidableEq, Repr

namespace UrlParser

open StdString

def colon : UInt8 := ascii ':'

def slash : UInt8 := ascii '/'

def invalidUrl (address : StdString) : InvalidOperation :=
  ⟨"Invalid URL ".toList.map ascii ++ address⟩

def parseNetworkAddress (address : StdString) : Except InvalidOperation NetworkAddress :=
  match find address colon 0 with
  | none => .error (invalidUrl address)
  | some p =>
    if p + 2 > address.length || slash != at? address (p + 1) || slash != at? address (p + 2) then
      .error (invalidUrl address)
    else
      let protocol := substr address 0 p
      let start := p + 3
      match find address slash start with
      | none =>
        match findLastOf address colon with
        | none => .ok ⟨protocol, address.drop start, [], []⟩
        | some p1 =>
          if p1 < start then .ok ⟨protocol, address.drop start, [], []⟩
          else .ok ⟨protocol, substr address start (p1 - start), address.drop (p1 + 1), []⟩
      | some p =>
        match findLastOf address colon with
        | none => .ok ⟨protocol, substr address start (p - start), [], address.drop p⟩
        | some p1 =>
          if p1 < start then
            .ok ⟨protocol, substr address start (p - start), [], address.drop p⟩
          else if p < p1 then
            .ok ⟨protocol, substr address start (p - start), [], address.drop p⟩
          else
            .ok ⟨protocol, substr address start (p1 - start),
              substr address (p1 + 1) (p - p1 - 1), address.drop p⟩

theorem protocol_no_colon {address : StdString} {parsed : NetworkAddress}
    (h : parseNetworkAddress address = .ok parsed) : colon ∉ parsed.protocol := by
  rw [parseNetworkAddress] at h
  cases hfind : find address colon 0 with
  | none => rw [hfind] at h; cases h
  | some p =>
    rw [hfind] at h
    have hcut := (find_cut hfind).1
    have hprotocol : parsed.protocol = address.take p := by
      dsimp only at h
      split at h
      · cases h
      · repeat' split at h
        all_goals
          cases h
          rfl
    rw [hprotocol]
    exact hcut

/-! ### Formatted addresses -/

/-- The parts of `proto://host[:port][/path]`. -/
structure Url where
  protocol : StdString
  host : StdString
  port : Option StdString
  /-- What stands behind the slash. -/
  path : Option StdString
  host_plain : colon ∉ host ∧ slash ∉ host
  port_decimal : ∀ digits ∈ port, ∀ b ∈ digits, isDigit b = true

namespace Url

variable (url : Url)

def portText : StdString :=
  match url.port with
  | none => []
  | some digits => colon :: digits

def pathText : StdString :=
  match url.path with
  | none => []
  | some text => slash :: text

def authority : StdString := url.host ++ url.portText

def format : StdString :=
  url.protocol ++ colon :: slash :: slash :: (url.authority ++ url.pathText)

/-- What the parser has to give back. -/
def parts : NetworkAddress := ⟨url.protocol, url.host, url.port.getD [], url.pathText⟩

theorem slash_not_mem_authority : slash ∉ url.authority := by
  have hdigits : ∀ digits ∈ url.port, slash ∉ digits := by
    intro digits hport hmem
    have h := url.port_decimal digits hport slash hmem
    revert h
    decide
  rw [authority, List.mem_append, not_or]
  refine ⟨url.host_plain.2, ?_⟩
  cases hport : url.port with
  | none => simp [portText, hport]
  | some digits =>
    simp only [portText, hport, List.mem_cons, not_or]
    exact ⟨by decide, hdigits digits hport⟩

theorem colon_not_mem_port {digits : StdString} (h : url.port = some digits) :
    colon ∉ digits := by
  intro hmem
  have hdigit := url.port_decimal digits h colon hmem
  revert hdigit
  decide

end Url

theorem eq_last_of_mem {symbol : UInt8} {text : StdString} (h : symbol ∈ text) :
    ∃ before after, text = before ++ symbol :: after ∧ symbol ∉ after := by
  obtain ⟨before, after, heq, hbefore⟩ := List.eq_append_cons_of_mem (List.mem_reverse.mpr h)
  refine ⟨after.reverse, before.reverse, ?_, by simpa using hbefore⟩
  rw [← List.reverse_reverse text, heq]
  simp

/-- An authority and what follows it, behind `protocol://`. -/
def joined (protocol authority path : StdString) : StdString :=
  protocol ++ colon :: slash :: slash :: (authority ++ path)

section Joined

variable {protocol authority path : StdString}

theorem joined_eq : joined protocol authority path
    = (protocol ++ [colon, slash, slash]) ++ (authority ++ path) := by
  simp [joined]

theorem head_length : (protocol ++ [colon, slash, slash]).length = protocol.length + 3 := by
  simp

theorem find_protocol (h : colon ∉ protocol) :
    find (joined protocol authority path) colon 0 = some protocol.length := by
  have hfind := @find_append colon [] protocol (slash :: slash :: (authority ++ path)) h
  simpa [joined] using hfind

theorem drop_joined (n : Nat) :
    (joined protocol authority path).drop (protocol.length + 3 + n) = (authority ++ path).drop n := by
  rw [joined_eq, ← head_length, List.drop_append]
  simp

theorem find_slash (ha : slash ∉ authority) (text : StdString) :
    find (joined protocol authority (slash :: text)) slash (protocol.length + 3)
      = some (protocol.length + 3 + authority.length) := by
  rw [joined_eq, ← head_length]
  exact find_append _ ha

theorem find_slash_none (ha : slash ∉ authority) :
    find (joined protocol authority []) slash (protocol.length + 3) = none := by
  rw [joined_eq, ← head_length]
  exact find_none _ (by simpa using ha)

theorem findLastOf_head (ha : colon ∉ authority) (hpath : colon ∉ path) :
    findLastOf (joined protocol authority path) colon = some protocol.length := by
  apply findLastOf_append
  simp only [List.mem_cons, List.mem_append, not_or]
  exact ⟨by decide, by decide, ha, hpath⟩

theorem findLastOf_authority {server port : StdString} (hport : colon ∉ port)
    (hpath : colon ∉ path) :
    findLastOf (joined protocol (server ++ colon :: port) path) colon
      = some (protocol.length + 3 + server.length) := by
  have heq : joined protocol (server ++ colon :: port) path
      = ((protocol ++ [colon, slash, slash]) ++ server) ++ colon :: (port ++ path) := by
    simp [joined]
  rw [heq, findLastOf_append _ (by simp [hport, hpath]), List.length_append, head_length]

theorem findLastOf_path {before after : StdString} (h : colon ∉ after) :
    findLastOf (joined protocol authority (before ++ colon :: after)) colon
      = some (protocol.length + 3 + authority.length + before.length) := by
  have heq : joined protocol authority (before ++ colon :: after)
      = ((protocol ++ [colon, slash, slash]) ++ authority ++ before) ++ colon :: after := by
    simp [joined]
  rw [heq, findLastOf_append _ h, List.length_append, List.length_append, head_length]

/-- What follows the check for `://`. -/
theorem parse_eq (h : colon ∉ protocol) :
    parseNetworkAddress (joined protocol authority path)
      = match find (joined protocol authority path) slash (protocol.length + 3) with
        | none =>
          match findLastOf (joined protocol authority path) colon with
          | none => .ok ⟨protocol, authority ++ path, [], []⟩
          | some p1 =>
            if p1 < protocol.length + 3 then .ok ⟨protocol, authority ++ path, [], []⟩
            else .ok ⟨protocol, (authority ++ path).take (p1 - (protocol.length + 3)),
              (joined protocol authority path).drop (p1 + 1), []⟩
        | some p =>
          match findLastOf (joined protocol authority path) colon with
          | none => .ok ⟨protocol, (authority ++ path).take (p - (protocol.length + 3)), [],
              (joined protocol authority path).drop p⟩
          | some p1 =>
            if p1 < protocol.length + 3 then
              .ok ⟨protocol, (authority ++ path).take (p - (protocol.length + 3)), [],
                (joined protocol authority path).drop p⟩
            else if p < p1 then
              .ok ⟨protocol, (authority ++ path).take (p - (protocol.length + 3)), [],
                (joined protocol authority path).drop p⟩
            else
              .ok ⟨protocol, (authority ++ path).take (p1 - (protocol.length + 3)),
                substr (joined protocol authority path) (p1 + 1) (p - p1 - 1),
                (joined protocol authority path).drop p⟩ := by
  have hrest : (joined protocol authority path).drop (protocol.length + 3) = authority ++ path :=
    drop_joined 0
  have hguard : (protocol.length + 2 > (joined protocol authority path).length
      || slash != at? (joined protocol authority path) (protocol.length + 1)
      || slash != at? (joined protocol authority path) (protocol.length + 2)) = false := by
    simp [joined, at?]
  have hprotocol : substr (joined protocol authority path) 0 protocol.length = protocol := by
    simp [substr, joined]
  rw [parseNetworkAddress, find_protocol h]
  dsimp only
  rw [hguard, hprotocol, hrest]
  simp only [substr, hrest, Bool.false_eq_true, if_false]

theorem drop_path (n : Nat) :
    (joined protocol authority path).drop (protocol.length + 3 + authority.length + n)
      = path.drop n := by
  rw [Nat.add_assoc, drop_joined, List.drop_append]
  simp

/-- No colon behind the protocol, or the last one in the path: the authority is the server. -/
theorem parse_server (h : colon ∉ protocol) (ha : slash ∉ authority) {text : StdString}
    (hpath : path = [] ∨ path = slash :: text)
    (hcolon : (colon ∉ authority ∧ colon ∉ path) ∨ colon ∈ path) :
    parseNetworkAddress (joined protocol authority path) = .ok ⟨protocol, authority, [], path⟩ := by
  rw [parse_eq h]
  rcases hpath with rfl | rfl
  · have hnone : colon ∉ authority := by simpa using hcolon
    rw [find_slash_none ha, findLastOf_head hnone (by simp)]
    simp
  · have hdrop : (joined protocol authority (slash :: text)).drop
        (protocol.length + 3 + authority.length) = slash :: text := drop_path 0
    rw [find_slash ha]
    rcases hcolon with ⟨hauthority, hpath⟩ | hmem
    · rw [findLastOf_head hauthority hpath]
      simp [hdrop]
    · obtain ⟨before, after, heq, hafter⟩ := eq_last_of_mem hmem
      have hlast : findLastOf (joined protocol authority (slash :: text)) colon
          = some (protocol.length + 3 + authority.length + before.length) := by
        rw [heq]
        exact findLastOf_path hafter
      have hpos : 0 < before.length := by
        cases before with
        | nil =>
          have hslash : slash = colon := (List.cons.inj heq).1
          exact absurd hslash (by decide)
        | cons b before => simp
      rw [hlast]
      dsimp only
      rw [if_neg (by omega), if_pos (by omega), hdrop]
      simp

/-- The last colon stands in the authority: it is cut there. -/
theorem parse_port (h : colon ∉ protocol) {server port text : StdString}
    (hserver : slash ∉ server) (hslash : slash ∉ port) (hport : colon ∉ port)
    (hpath : path = [] ∨ path = slash :: text) (hcolon : colon ∉ path) :
    parseNetworkAddress (joined protocol (server ++ colon :: port) path)
      = .ok ⟨protocol, server, port, path⟩ := by
  have ha : slash ∉ server ++ colon :: port := by
    simp only [List.mem_append, List.mem_cons, not_or]
    exact ⟨hserver, by decide, hslash⟩
  have hbehind : (joined protocol (server ++ colon :: port) path).drop
      (protocol.length + 3 + server.length + 1) = port ++ path := by
    rw [Nat.add_assoc _ server.length 1, drop_joined, List.append_assoc, List.drop_append]
    simp
  rw [parse_eq h]
  rcases hpath with rfl | rfl
  · rw [find_slash_none ha, findLastOf_authority hport hcolon]
    dsimp only
    rw [if_neg (by omega), hbehind]
    simp
  · have hdrop : (joined protocol (server ++ colon :: port) (slash :: text)).drop
        (protocol.length + 3 + (server ++ colon :: port).length) = slash :: text := drop_path 0
    rw [find_slash ha, findLastOf_authority hport hcolon]
    dsimp only
    have hlength : protocol.length + 3 + (server ++ colon :: port).length
        - (protocol.length + 3 + server.length) - 1 = port.length := by
      simp only [List.length_append, List.length_cons]
      omega
    rw [if_neg (by omega), if_neg (by simp only [List.length_append]; omega), hdrop, substr, hbehind,
      hlength]
    simp

end Joined

/-- The parser gives the parts back exactly when there is no port or no colon in the path. -/
theorem parse_format_iff (url : Url) :
    parseNetworkAddress url.format = .ok url.parts ↔
      colon ∉ url.protocol ∧ (url.port = none ∨ colon ∉ url.pathText) := by
  have hformat : url.format = joined url.protocol url.authority url.pathText := rfl
  have hslash := url.slash_not_mem_authority
  have hpath : url.pathText = [] ∨ url.pathText = slash :: url.path.getD [] := by
    cases hpath : url.path with
    | none => exact Or.inl (by simp [Url.pathText, hpath])
    | some text => exact Or.inr (by simp [Url.pathText, hpath])
  constructor
  · intro hparse
    have hprotocol : colon ∉ url.protocol := protocol_no_colon hparse
    refine ⟨hprotocol, ?_⟩
    by_contra hboth
    rw [not_or, not_not] at hboth
    rw [hformat, parse_server hprotocol hslash hpath (Or.inr hboth.2)] at hparse
    -- the server has kept the port
    have hserver : url.authority = url.host :=
      congrArg NetworkAddress.server (Except.ok.inj hparse)
    have htext : url.portText = [] := by simpa [Url.authority] using hserver
    cases hport : url.port with
    | none => exact hboth.1 hport
    | some digits => simp [Url.portText, hport] at htext
  · rintro ⟨hprotocol, hcase⟩
    rw [hformat]
    cases hport : url.port with
    | none =>
      have hauthority : url.authority = url.host := by simp [Url.authority, Url.portText, hport]
      have hparts : url.parts = ⟨url.protocol, url.authority, [], url.pathText⟩ := by
        simp [Url.parts, hport, hauthority]
      have hcolon : (colon ∉ url.authority ∧ colon ∉ url.pathText) ∨ colon ∈ url.pathText := by
        by_cases hmem : colon ∈ url.pathText
        · exact Or.inr hmem
        · exact Or.inl ⟨hauthority ▸ url.host_plain.1, hmem⟩
      rw [hparts, parse_server hprotocol hslash hpath hcolon]
    | some digits =>
      have hauthority : url.authority = url.host ++ colon :: digits := by
        simp [Url.authority, Url.portText, hport]
      have hparts : url.parts = ⟨url.protocol, url.host, digits, url.pathText⟩ := by
        simp [Url.parts, hport]
      have hcolon : colon ∉ url.pathText := by simpa [hport] using hcase
      have hdigits : slash ∉ digits := by
        rw [hauthority] at hslash
        simp only [List.mem_append, List.mem_cons, not_or] at hslash
        exact hslash.2.2
      rw [hparts, hauthority, parse_port hprotocol url.host_plain.2 hdigits
        (url.colon_not_mem_port hport) hpath hcolon]

/-- `a://h:1/p:2`. -/
def colonPath : Url where
  protocol := [ascii 'a']
  host := [ascii 'h']
  port := some [ascii '1']
  path := some [ascii 'p', colon, ascii '2']
  host_plain := by decide +kernel
  port_decimal := by
    intro digits hdigits
    cases hdigits
    decide +kernel

theorem not_parse_format_colonPath :
    ¬∀ url : Url, colon ∉ url.protocol → parseNetworkAddress url.format = .ok url.parts := by
  intro h
  exact absurd (h colonPath (by decide +kernel)) (by decide +kernel)

/-! ### `parse_addresses` -/

open Library.CallbackWalk

def semicolon : UInt8 := ascii ';'

/-- A handler's arguments: the protocol and the address. -/
abbrev Handler := Callback (StdString × StdString) (Expected Bool)

abbrev Calls := StateM (List (StdString × StdString))

def parseAddress (address : StdString) (handler : Handler) : Calls (Expected Bool) :=
  match find address colon 0 with
  | none => pure (.ok false)
  | some p => invoke handler (substr address 0 p, address)

/-- The loop of `parse_addresses` from `start`, and its tail for the last item. -/
def parseAddressesFrom (addresses : StdString) (handler : Handler) :
    Nat → Nat → Calls (Expected Bool)
  | 0, _ => pure (.error .outOfFuel)
  | fuel + 1, start =>
    match find addresses semicolon start with
    | none => parseAddress (addresses.drop start) handler
    | some p => do
      let result ← parseAddress (substr addresses start (p - start)) handler
      if Expected.operatorNot result then
        return .ok false
      else
        parseAddressesFrom addresses handler fuel (p + 1)

def parseAddresses (addresses : StdString) (handler : Handler) : Calls (Expected Bool) :=
  parseAddressesFrom addresses handler (addresses.length + 1) 0

/-- The parts between the semicolons, empty ones included. -/
def pieces (addresses : StdString) : List StdString := addresses.splitOn semicolon

/-- The protocol of an item ends at its first colon. -/
def call (item : StdString) : StdString × StdString := (item.takeWhile (· != colon), item)

/-- The items that a walk is about. -/
def items (pieces : List StdString) : List (StdString × StdString) :=
  (pieces.filter (· != [])).map call

/-- The items that the handler is called on. -/
def called (pieces : List StdString) : List (StdString × StdString) :=
  (pieces.filter (colon ∈ ·)).map call

/-- What one item adds to the calls, and its answer. -/
def answer (handler : Handler) (calls : List (StdString × StdString)) (item : StdString) :
    Expected Bool :=
  if colon ∈ item then handler calls (call item) else .ok false

theorem takeWhile_cut {before after : StdString} (h : colon ∉ before) :
    (before ++ colon :: after).takeWhile (· != colon) = before := by
  rw [List.takeWhile_append_of_pos]
  · simp
  · intro b hb
    simp only [bne_iff_ne]
    rintro rfl
    exact h hb

theorem parseAddress_run (item : StdString) (handler : Handler)
    (calls : List (StdString × StdString)) :
    parseAddress item handler calls = (answer handler calls item, calls ++ called [item]) := by
  by_cases hmem : colon ∈ item
  · obtain ⟨before, after, rfl, hbefore⟩ := List.eq_append_cons_of_mem hmem
    have hfind : find (before ++ colon :: after) colon 0 = some before.length := by
      simpa using @find_append colon [] before after hbefore
    rw [parseAddress, hfind]
    simp [invoke, answer, called, call, substr, takeWhile_cut hbefore]
  · have hfind : find item colon 0 = none := by simpa using @find_none colon [] item hmem
    rw [parseAddress, hfind]
    simp [answer, called, hmem]
    rfl

/-- Every piece is tried; the result is the answer for the last one. -/
def walkPieces (handler : Handler) : List StdString → Calls (Expected Bool)
  | [] => pure (.ok false)
  | [last] => parseAddress last handler
  | piece :: rest => do
    let _ ← parseAddress piece handler
    walkPieces handler rest

theorem pieces_cut {before after : StdString} (h : semicolon ∉ before) :
    pieces (before ++ semicolon :: after) = before :: pieces after :=
  List.splitOn_append_cons_self_of_not_mem h after

theorem walkPieces_cons (handler : Handler) (piece : StdString) {rest : List StdString}
    (h : rest ≠ []) :
    walkPieces handler (piece :: rest) = (do
      let _ ← parseAddress piece handler
      walkPieces handler rest) := by
  cases rest with
  | nil => exact absurd rfl h
  | cons next rest => rfl

theorem parseAddressesFrom_eq (handler : Handler) (done rest : StdString) (fuel : Nat)
    (hfuel : rest.length < fuel) :
    parseAddressesFrom (done ++ rest) handler fuel done.length
      = walkPieces handler (pieces rest) := by
  induction fuel generalizing done rest with
  | zero => omega
  | succ fuel ih =>
    rw [parseAddressesFrom]
    by_cases hmem : semicolon ∈ rest
    · obtain ⟨before, after, rfl, hbefore⟩ := List.eq_append_cons_of_mem hmem
      have hnil : pieces after ≠ [] := List.splitOn_ne_nil semicolon after
      rw [find_append done hbefore, pieces_cut hbefore, walkPieces_cons handler before hnil]
      have hitem : substr (done ++ (before ++ semicolon :: after)) done.length
          (done.length + before.length - done.length) = before := by
        simp [substr]
      have hnext : done ++ (before ++ semicolon :: after)
          = (done ++ before ++ [semicolon]) ++ after := by simp
      have hlength : done.length + before.length + 1
          = (done ++ before ++ [semicolon]).length := by simp [Nat.add_assoc]
      simp only [hitem, Expected.operatorNot_eq_false, Bool.false_eq_true, if_false]
      rw [hnext, hlength, ih]
      simp only [List.length_append, List.length_cons] at hfuel
      omega
    · rw [find_none done hmem]
      have hpieces : pieces rest = [rest] := List.splitOn_eq_singleton hmem
      simp [hpieces, walkPieces]

theorem parseAddresses_eq (addresses : StdString) (handler : Handler) :
    parseAddresses addresses handler = walkPieces handler (pieces addresses) := by
  have h := parseAddressesFrom_eq handler [] addresses (addresses.length + 1) (by omega)
  simpa [parseAddresses] using h

theorem called_cons (piece : StdString) (rest : List StdString) :
    called (piece :: rest) = called [piece] ++ called rest := by
  rw [called, called, called, ← List.map_append, ← List.filter_append]
  rfl

/-- The handler is called on every item with a colon, whatever it answers. -/
theorem walkPieces_run (handler : Handler) (rest : List StdString) (last : StdString)
    (calls : List (StdString × StdString)) :
    walkPieces handler (rest ++ [last]) calls
      = (answer handler (calls ++ called rest) last, calls ++ called (rest ++ [last])) := by
  induction rest generalizing calls with
  | nil => simpa [walkPieces, called] using parseAddress_run last handler calls
  | cons piece rest ih =>
    rw [List.cons_append, walkPieces_cons handler piece (by simp)]
    have hbind : (do
        let _ ← parseAddress piece handler
        walkPieces handler (rest ++ [last]) : Calls (Expected Bool)) calls
        = walkPieces handler (rest ++ [last]) (parseAddress piece handler calls).2 := rfl
    rw [hbind, parseAddress_run, ih, called_cons piece rest, called_cons piece (rest ++ [last]),
      List.append_assoc, List.append_assoc]

/-- The walk goes on after `true` only. -/
def GoesOn (result : Expected Bool) : Prop := result = .ok true

/-- An item that the walk reaches has a colon, and when it is not answered with `true`, then no
item with a colon follows and the answer is `false` or the item is the last one. -/
def StopsInTime (handler : Handler) (pieces : List StdString) : Prop :=
  ∀ before item after, pieces = before ++ item :: after → item ≠ [] →
    AllGoOn GoesOn handler (items before) →
    colon ∈ item ∧ (handler (items before) (call item) = .ok true ∨
      ((∀ next ∈ after, colon ∉ next) ∧
        (handler (items before) (call item) = .ok false ∨ after = [])))

section Items

variable {before after : List StdString} {item : StdString}

theorem items_append : items (before ++ after) = items before ++ items after := by
  simp [items]

theorem called_append : called (before ++ after) = called before ++ called after := by
  simp [called]

theorem items_cons (h : item ≠ []) : items (item :: after) = call item :: items after := by
  simp [items, h]

theorem called_cons_of_mem (h : colon ∈ item) :
    called (item :: after) = call item :: called after := by
  simp [called, h]

theorem mem_called {x : StdString × StdString} :
    x ∈ called after ↔ ∃ item ∈ after, colon ∈ item ∧ call item = x := by
  simp [called, and_assoc]

theorem call_mem_called (h : call item ∈ called after) : colon ∈ item := by
  obtain ⟨other, -, hcolon, heq⟩ := mem_called.mp h
  have hsame : other = item := congrArg Prod.snd heq
  rw [← hsame]
  exact hcolon

theorem called_eq_items (h : ∀ item ∈ after, item ≠ [] → colon ∈ item) :
    called after = items after := by
  rw [called, items]
  congr 1
  apply List.filter_congr
  intro item hitem
  by_cases hnil : item = []
  · simp [hnil]
  · simp [hnil, h item hitem hnil]

theorem called_eq_nil_iff : called after = [] ↔ ∀ item ∈ after, colon ∉ item := by
  simp [called]

/-- An item of the walk stands at a place of the list of pieces. -/
theorem items_eq_append {pieces : List StdString} {first rest : List (StdString × StdString)}
    {x : StdString × StdString} (h : items pieces = first ++ x :: rest) :
    ∃ before item after, pieces = before ++ item :: after ∧ item ≠ [] ∧ items before = first ∧
      call item = x ∧ items after = rest := by
  induction pieces generalizing first with
  | nil => simp [items] at h
  | cons piece pieces ih =>
    by_cases hpiece : piece = []
    · have hskip : items (piece :: pieces) = items pieces := by simp [items, hpiece]
      rw [hskip] at h
      obtain ⟨before, item, after, rfl, hitem, hbefore, hcall, hafter⟩ := ih h
      refine ⟨piece :: before, item, after, rfl, hitem, ?_, hcall, hafter⟩
      rw [← hbefore]
      simp [items, hpiece]
    · rw [items_cons hpiece] at h
      cases first with
      | nil =>
        obtain ⟨hcall, hrest⟩ := List.cons.inj h
        exact ⟨[], piece, pieces, rfl, hpiece, rfl, hcall, hrest⟩
      | cons y first =>
        obtain ⟨rfl, htail⟩ := List.cons.inj h
        obtain ⟨before, item, after, rfl, hitem, rfl, hcall, hafter⟩ := ih htail
        exact ⟨piece :: before, item, after, rfl, hitem, items_cons hpiece, hcall, hafter⟩

end Items

/-- Items up to one that the walk reaches all have a colon. -/
theorem StopsInTime.called_before {handler : Handler} {before after : List StdString}
    (h : StopsInTime handler (before ++ after)) (hall : AllGoOn GoesOn handler (items before)) :
    called before = items before := by
  apply called_eq_items
  intro item hitem hnil
  obtain ⟨front, back, rfl⟩ := List.append_of_mem hitem
  have hfront : AllGoOn GoesOn handler (items front) := by
    rw [items_append] at hall
    exact hall.of_append
  exact (h front item (back ++ after) (by simp) hnil hfront).1

theorem last_cases {rest before after : List StdString} {item last : StdString}
    (h : rest ++ [last] = before ++ item :: after) :
    (after = [] ∧ rest = before ∧ last = item) ∨ last ∈ after := by
  rcases List.eq_nil_or_concat after with rfl | ⟨after, last', rfl⟩
  · obtain ⟨hrest, hlast⟩ := List.append_inj' h rfl
    exact Or.inl ⟨rfl, hrest, by simpa using hlast⟩
  · have hsplit : rest ++ [last] = (before ++ item :: after) ++ [last'] := by simpa using h
    have hlast : last = last' := by simpa using (List.append_inj' hsplit rfl).2
    exact Or.inr (by simp [hlast])

/-- The calls and the result that the code has for a list of pieces. -/
theorem obeys_iff_stopsInTime (handler : Handler) (rest : List StdString) (last : StdString) :
    Obeys GoesOn handler (items (rest ++ [last])) (called (rest ++ [last]))
      (answer handler (called rest) last) ↔ StopsInTime handler (rest ++ [last]) := by
  constructor
  · intro h before item after heq hnil hall
    have hitems : items (rest ++ [last]) = items before ++ call item :: items after := by
      rw [heq, items_append, items_cons hnil]
    rcases h with ⟨hcalls, hgo⟩ | ⟨first, x, more, hP, hfirst, hstop, hcalls, hresult⟩
    · have hmem : call item ∈ called (rest ++ [last]) := by
        rw [hcalls, hitems]
        simp
      exact ⟨call_mem_called hmem, Or.inl (hgo _ _ _ hitems)⟩
    · rcases hall.prefix_of_stop hstop (hitems.symm.trans hP) with
        ⟨rfl, rfl, -⟩ | ⟨more', rfl, -⟩
      · -- the answer for this item ends the walk
        have hmem : call item ∈ called (rest ++ [last]) := by
          rw [hcalls]
          simp
        have hcolon : colon ∈ item := call_mem_called hmem
        have hbefore : called before = items before := by
          apply called_eq_items
          intro other hother hother'
          have hmem' : call other ∈ called (rest ++ [last]) := by
            rw [hcalls, List.mem_append]
            left
            simp only [items, List.mem_map, List.mem_filter]
            exact ⟨other, ⟨hother, by simpa using hother'⟩, rfl⟩
          exact call_mem_called hmem'
        have hafter : called after = [] := by
          rw [heq, called_append, called_cons_of_mem hcolon, hbefore] at hcalls
          simpa using hcalls
        refine ⟨hcolon, Or.inr ⟨called_eq_nil_iff.mp hafter, ?_⟩⟩
        rcases last_cases heq with ⟨hnone, -, -⟩ | hlast
        · exact Or.inr hnone
        · left
          rw [← hresult, answer, if_neg (called_eq_nil_iff.mp hafter last hlast)]
      · have hmem : call item ∈ called (rest ++ [last]) := by
          rw [hcalls]
          simp
        exact ⟨call_mem_called hmem, Or.inl (hfirst _ _ more' rfl)⟩
  · intro h
    rcases allGoOn_or_stop GoesOn handler (items (rest ++ [last])) with
      hall | ⟨first, x, more, hP, hfirst, hstop⟩
    · have hwhole : StopsInTime handler ((rest ++ [last]) ++ []) := by simpa using h
      exact Or.inl ⟨hwhole.called_before hall, hall⟩
    · obtain ⟨before, item, after, heq, hnil, rfl, rfl, -⟩ := items_eq_append hP
      obtain ⟨hcolon, hcase⟩ := h before item after heq hnil hfirst
      obtain ⟨hafter, hanswer⟩ := hcase.resolve_left hstop
      have hbefore : called before = items before := by
        rw [heq] at h
        exact h.called_before hfirst
      refine Or.inr ⟨items before, call item, more, hP, hfirst, hstop, ?_, ?_⟩
      · rw [heq, called_append, called_cons_of_mem hcolon, hbefore, called_eq_nil_iff.mpr hafter]
      · rcases last_cases heq with ⟨-, rfl, rfl⟩ | hlast
        · rw [answer, if_pos hcolon, hbefore]
        · have hfalse := hanswer.resolve_right (List.ne_nil_of_mem hlast)
          rw [answer, if_neg (hafter last hlast), hfalse]

/-- `parse_addresses` stops when it is told to exactly when it is told so by the last item. -/
theorem parseAddresses_obeys (addresses : StdString) (handler : Handler) :
    Obeys GoesOn handler (items (pieces addresses)) (parseAddresses addresses handler []).2
      (parseAddresses addresses handler []).1 ↔ StopsInTime handler (pieces addresses) := by
  have hnil : pieces addresses ≠ [] := List.splitOn_ne_nil semicolon addresses
  obtain ⟨rest, last, hpieces⟩ := (List.eq_nil_or_concat (pieces addresses)).resolve_left hnil
  rw [parseAddresses_eq, hpieces, List.concat_eq_append, walkPieces_run, List.nil_append,
    List.nil_append]
  exact obeys_iff_stopsInTime handler rest last

end UrlParser

end Vds
