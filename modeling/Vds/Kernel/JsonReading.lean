import Vds.Kernel.JsonStrings
import Vds.Library.PushMachine
import Vds.Library.Fallible

/-! What `json_parser` makes of the text of a value: `reread` says which tree comes back, if one
does. Strings come back respelled, an integer comes back as a string, a null value or a missing
comma stops the parser. -/

namespace Vds

open JsonWriter (escape escapeAll quoted hex4 hexDigit nullText)
open JsonText (comma)
open Library.PushMachine Library.Fallible

namespace JsonParser

/-- The part of the parser that the text decides, without positions and half a `\u`. -/
structure Config where
  state : State
  savedStates : List State
  nodes : List Node
  results : List JsonValue
  buffer : StdString

def Config.parser (c : Config) (streamName : StdString) (line column : Int)
    (numBuffer : UInt32) : JsonParser :=
  ⟨streamName, ⟨false, false⟩, c.state, c.savedStates, c.nodes, c.results, line, column,
    c.buffer, numBuffer⟩

def Shows (p : JsonParser) (c : Config) : Prop :=
  ∃ streamName line column numBuffer, p = c.parser streamName line column numBuffer

/-- As `Shows`, with the half of a `\u`. -/
def ShowsNum (p : JsonParser) (c : Config × UInt32) : Prop :=
  ∃ streamName line column, p = c.1.parser streamName line column c.2

abbrev Leads := Steps symbol Shows

abbrev Stops := Fails symbol Shows

abbrev Comes := Reads symbol Shows

abbrev LeadsNum := Steps symbol ShowsNum

theorem advance_eq (c : Config) (name : StdString) (line column : Int) (num : UInt32)
    (b : UInt8) : ∃ line' column',
      (c.parser name line column num).advance b = c.parser name line' column' num := by
  rw [advance]
  by_cases h : b = ascii '\n'
  · exact ⟨_, _, if_pos h⟩
  · rw [if_neg h]
    by_cases h' : b = ascii '\t'
    · exact ⟨_, _, if_pos h'⟩
    · exact ⟨_, _, if_neg h'⟩

theorem symbol_eq {c : Config} (hc : c.state ≠ .number) (name : StdString)
    (line column : Int) (num : UInt32) (b : UInt8) : ∃ line' column',
      (c.parser name line column num).symbol b = (c.parser name line' column' num).symbolIn b := by
  obtain ⟨line', column', h⟩ := advance_eq c name line column num b
  refine ⟨line', column', ?_⟩
  rw [symbol, h]
  exact if_neg hc

/-- A symbol whose effect the switch shows. -/
theorem leadsNum_symbol {c c' : Config} {num num' : UInt32} {b : UInt8} (hc : c.state ≠ .number)
    (h : ∀ name line column, (c.parser name line column num).symbolIn b =
      .ok (c'.parser name line column num')) : LeadsNum (c, num) [b] (c', num') := by
  refine Steps.single ?_
  rintro s ⟨name, line, column, rfl⟩
  obtain ⟨line', column', hs⟩ := symbol_eq hc name line column num b
  exact ⟨_, hs.trans (h name line' column'), name, line', column', rfl⟩

theorem leads_of_leadsNum {c c' : Config} {text : StdString}
    (h : ∀ num, ∃ num', LeadsNum (c, num) text (c', num')) : Leads c text c' := by
  rintro s ⟨name, line, column, num, rfl⟩
  obtain ⟨num', hnum⟩ := h num
  obtain ⟨s', hrun, name', line', column', rfl⟩ := hnum _ ⟨name, line, column, rfl⟩
  exact ⟨_, hrun, name', line', column', num', rfl⟩

theorem leads_symbol {c c' : Config} {b : UInt8} (hc : c.state ≠ .number)
    (h : ∀ name line column num, (c.parser name line column num).symbolIn b =
      .ok (c'.parser name line column num)) : Leads c [b] c' :=
  leads_of_leadsNum fun num => ⟨num, leadsNum_symbol hc fun name line column =>
    h name line column num⟩

theorem stops_symbol {c : Config} {b : UInt8} (hc : c.state ≠ .number)
    (h : ∀ name line column num, ∃ e, (c.parser name line column num).symbolIn b = .error e) :
    Stops c [b] := by
  refine Fails.single ?_
  rintro s ⟨name, line, column, num, rfl⟩
  obtain ⟨line', column', hs⟩ := symbol_eq hc name line column num b
  obtain ⟨e, he⟩ := h name line' column' num
  exact ⟨e, hs.trans he⟩

/-! ### Strings -/

section Strings

variable (S : List State) (N : List Node) (R : List JsonValue) (buf : StdString)

theorem leads_plain {b : UInt8} (hq : b ≠ quote) (hb : b ≠ backslash) :
    Leads ⟨.string, S, N, R, buf⟩ [b] ⟨.string, S, N, R, buf ++ [b]⟩ := by
  refine leads_symbol (by simp) fun name line column num => ?_
  change stringSymbol _ b = _
  rw [stringSymbol, if_neg hb, if_neg hq]
  rfl

theorem leads_escaped {b byte : UInt8} (h : ∀ p : JsonParser, p.stringBacksleshSymbol b =
      .ok { p with buffer := p.buffer ++ [byte], state := .string }) :
    Leads ⟨.string, S, N, R, buf⟩ [backslash, b] ⟨.string, S, N, R, buf ++ [byte]⟩ := by
  have hslash : Leads ⟨.string, S, N, R, buf⟩ [backslash] ⟨.stringBackslesh, S, N, R, buf⟩ :=
    leads_symbol (by simp) fun _ _ _ _ => rfl
  exact hslash.trans (leads_symbol (by simp) fun name line column num => h _)

theorem hexValue_hexDigit {n : UInt32} (h : n < 16) : hexValue (hexDigit n) = some n := by
  have hall : ∀ i : Fin 16, hexValue (hexDigit (UInt32.ofNat i)) = some (UInt32.ofNat i) := by
    decide
  have hn := hall ⟨n.toNat, UInt32.lt_iff_toNat_lt.1 h⟩
  rwa [UInt32.ofNat_toNat] at hn

theorem digit_lt (ch : UInt32) : ch &&& 0xF < 16 := by
  rw [UInt32.lt_iff_toNat_lt, UInt32.toNat_and]
  exact Nat.lt_succ_of_le Nat.and_le_right

theorem hex4_value (ch : UInt32) :
    (((ch >>> 12 &&& 0xF) <<< 4 ||| (ch >>> 8 &&& 0xF)) <<< 4 ||| (ch >>> 4 &&& 0xF)) <<< 4 |||
      (ch &&& 0xF) = ch &&& 0xFFFF := by
  apply UInt32.toBitVec_inj.1
  ext i hi
  simp only [UInt32.toBitVec_and, UInt32.toBitVec_or, BitVec.getElem_or, BitVec.getElem_and]
  interval_cases i <;> simp

theorem leadsNum_digit {c c' : Config} {num n num' : UInt32} (index : Fin 4)
    (hc : c.state = .stringSymbol index)
    (h : ∀ name line column, (c.parser name line column num).hexSymbol index (hexDigit n) =
      .ok (c'.parser name line column num')) : LeadsNum (c, num) [hexDigit n] (c', num') := by
  refine leadsNum_symbol (by simp [hc]) fun name line column => ?_
  refine Eq.trans ?_ (h name line column)
  rw [symbolIn]
  simp only [Config.parser, hc]

/-- Four digits are the character cut to 16 bits. -/
theorem leads_hex4 {ch : UInt32} {bytes : StdString} (h : Utf8.reencode ch = .ok bytes) :
    Leads ⟨.stringSymbol 0, S, N, R, buf⟩ (hex4 ch) ⟨.string, S, N, R, buf ++ bytes⟩ := by
  refine leads_of_leadsNum fun num => ⟨ch &&& 0xFFFF, ?_⟩
  have hadd : Utf8.add buf (ch &&& 0xFFFF) = .ok (buf ++ bytes) := by
    rw [Utf8.reencode] at h
    rw [Utf8.add, h]
  have h1 : LeadsNum (⟨.stringSymbol 0, S, N, R, buf⟩, num) [hexDigit (ch >>> 12 &&& 0xF)]
      (⟨.stringSymbol 1, S, N, R, buf⟩, ch >>> 12 &&& 0xF) := by
    refine leadsNum_digit 0 rfl fun name line column => ?_
    rw [hexSymbol, hexValue_hexDigit (digit_lt _)]
    rfl
  have h2 : LeadsNum (⟨.stringSymbol 1, S, N, R, buf⟩, ch >>> 12 &&& 0xF)
      [hexDigit (ch >>> 8 &&& 0xF)] (⟨.stringSymbol 2, S, N, R, buf⟩,
        (ch >>> 12 &&& 0xF) <<< 4 ||| (ch >>> 8 &&& 0xF)) := by
    refine leadsNum_digit 1 rfl fun name line column => ?_
    rw [hexSymbol, hexValue_hexDigit (digit_lt _)]
    rfl
  have h3 : LeadsNum (⟨.stringSymbol 2, S, N, R, buf⟩,
      (ch >>> 12 &&& 0xF) <<< 4 ||| (ch >>> 8 &&& 0xF)) [hexDigit (ch >>> 4 &&& 0xF)]
      (⟨.stringSymbol 3, S, N, R, buf⟩,
        ((ch >>> 12 &&& 0xF) <<< 4 ||| (ch >>> 8 &&& 0xF)) <<< 4 ||| (ch >>> 4 &&& 0xF)) := by
    refine leadsNum_digit 2 rfl fun name line column => ?_
    rw [hexSymbol, hexValue_hexDigit (digit_lt _)]
    rfl
  have h4 : LeadsNum (⟨.stringSymbol 3, S, N, R, buf⟩,
      ((ch >>> 12 &&& 0xF) <<< 4 ||| (ch >>> 8 &&& 0xF)) <<< 4 ||| (ch >>> 4 &&& 0xF))
      [hexDigit (ch &&& 0xF)] (⟨.string, S, N, R, buf ++ bytes⟩, ch &&& 0xFFFF) := by
    refine leadsNum_digit 3 rfl fun name line column => ?_
    rw [hexSymbol, hexValue_hexDigit (digit_lt _)]
    simp only [Config.parser, hex4_value, hadd]
    rfl
  exact h1.trans (h2.trans (h3.trans h4))

/-- What is written for one character is read as its new bytes. -/
theorem leads_escape {ch : UInt32} {bytes : StdString} (h : Utf8.reencode ch = .ok bytes) :
    Leads ⟨.string, S, N, R, buf⟩ (escape ch) ⟨.string, S, N, R, buf ++ bytes⟩ := by
  have hescaped : ∀ {code : UInt32} {b byte : UInt8}, ch = code →
      Utf8.reencode code = .ok [byte] → (∀ p : JsonParser, p.stringBacksleshSymbol b =
        .ok { p with buffer := p.buffer ++ [byte], state := .string }) →
      Leads ⟨.string, S, N, R, buf⟩ [backslash, b] ⟨.string, S, N, R, buf ++ bytes⟩ := by
    rintro code b byte rfl hbyte hp
    cases h.symm.trans hbyte
    exact leads_escaped S N R buf hp
  rw [escape]
  split_ifs with h1 h2 h3 h4 h5 h6 h7 h8
  · exact hescaped h1 (by decide) fun p => rfl
  · exact hescaped h2 (by decide) fun p => rfl
  · exact hescaped h3 (by decide) fun p => rfl
  · exact hescaped h4 (by decide) fun p => rfl
  · exact hescaped h5 (by decide) fun p => rfl
  · exact hescaped h6 (by decide) fun p => rfl
  · exact hescaped h7 (by decide) fun p => rfl
  · cases h.symm.trans (Utf8.reencode_one h8.1)
    have hne : ∀ {n : UInt8}, ch ≠ n.toUInt32 → ch.toUInt8 ≠ n := by
      intro n hch heq
      apply hch
      have hsmall : ch.toNat < 256 :=
        Nat.lt_trans (UInt32.lt_iff_toNat_lt.1 h8.1) (by decide)
      rw [← heq, ← UInt32.toNat_inj, UInt8.toNat_toUInt32, UInt32.toNat_toUInt8]
      exact (Nat.mod_eq_of_lt hsmall).symm
    exact leads_plain S N R buf (hne h2) (hne h1)
  · have hu : Leads ⟨.string, S, N, R, buf⟩ [backslash, ascii 'u']
        ⟨.stringSymbol 0, S, N, R, buf⟩ := by
      have hslash : Leads ⟨.string, S, N, R, buf⟩ [backslash] ⟨.stringBackslesh, S, N, R, buf⟩ :=
        leads_symbol (by simp) fun _ _ _ _ => rfl
      exact hslash.trans (leads_symbol (by simp) fun _ _ _ _ => rfl)
    exact hu.trans (leads_hex4 S N R buf h)

theorem escapeAll_cons {n : ℕ} {a : UInt8} {value rest : StdString} {ch : UInt32}
    (h : Utf8.nextChar (a :: value) = .ok (ch, rest)) :
    escapeAll (n + 1) (a :: value) = (escapeAll n rest).map (escape ch ++ ·) := by
  rw [escapeAll, h]
  change (escapeAll n rest >>= fun text => pure (escape ch ++ text)) = _
  cases escapeAll n rest <;> rfl

/-- The text of a string is read as the string respelled. -/
theorem leads_escapeAll {n : ℕ} {value text : StdString} (h : escapeAll n value = .ok text) :
    ∃ out, Utf8.respell n value = some out ∧
      Leads ⟨.string, S, N, R, buf⟩ text ⟨.string, S, N, R, buf ++ out⟩ := by
  induction n generalizing value text buf with
  | zero =>
    cases h
    exact ⟨[], rfl, by rw [List.append_nil]; exact Steps.refl⟩
  | succ n ih =>
    match value with
    | [] =>
      cases h
      exact ⟨[], rfl, by rw [List.append_nil]; exact Steps.refl⟩
    | a :: value =>
      match hnext : Utf8.nextChar (a :: value) with
      | .error e =>
        rw [escapeAll, hnext] at h
        cases h
      | .ok (ch, rest) =>
        obtain ⟨bytes, hbytes, -⟩ := Utf8.reencode_ok ch
        rw [escapeAll_cons hnext] at h
        cases htail : escapeAll n rest with
        | error e =>
          rw [htail] at h
          cases h
        | ok tail =>
          rw [htail] at h
          cases h
          obtain ⟨out, hout, hleads⟩ := ih (buf ++ bytes) htail
          refine ⟨bytes ++ out, ?_, ?_⟩
          · rw [Utf8.respell_cons hnext hbytes, hout]
            rfl
          · rw [← List.append_assoc]
            exact (leads_escape S N R buf hbytes).trans hleads

end Strings

theorem of_quoted {value text : StdString} (h : quoted value = .ok text) :
    ∃ body, escapeAll value.length value = .ok body ∧ text = quote :: body ++ [quote] := by
  rw [quoted] at h
  cases hbody : escapeAll value.length value with
  | error e =>
    rw [hbody] at h
    cases h
  | ok body =>
    rw [hbody] at h
    cases h
    exact ⟨body, rfl, rfl⟩

/-! ### Places for a value -/

/-- A place that waits for a value, with what stands before it. -/
inductive Slot
  | member (name : StdString) (properties : List (StdString × JsonValue))
  | item (items : List JsonValue)

namespace Slot

/-- The state in which the value starts. -/
def start : Slot → State
  | .member _ _ => .objectPropertyValue
  | .item _ => .array

/-- The state behind the value. -/
def rest : Slot → State
  | .member _ _ => .objectItem
  | .item _ => .arrayItem

/-- The saved states when the value starts; its first symbol makes them `rest :: states`. -/
def saved : Slot → List State → List State
  | .member _ _, states => .objectItem :: states
  | .item _, states => states

def nodes : Slot → List Node → List Node
  | .member name properties, nodes => .property name :: .object properties :: nodes
  | .item items, nodes => .array items :: nodes

def filled : Slot → JsonValue → List Node → List Node
  | .member name properties, value, nodes => .object (properties ++ [(name, value)]) :: nodes
  | .item items, value, nodes => .array (items ++ [value]) :: nodes

theorem attach_nodes (slot : Slot) (value : JsonValue) (nodes : List Node) :
    attach value (slot.nodes nodes) = .ok (slot.filled value nodes) := by
  cases slot <;> rfl

/-- Before the value. -/
def before (slot : Slot) (S : List State) (N : List Node) (R : List JsonValue) : Config :=
  ⟨slot.start, slot.saved S, slot.nodes N, R, []⟩

/-- Behind the value. -/
def behind (slot : Slot) (S : List State) (N : List Node) (R : List JsonValue)
    (value : JsonValue) : Config :=
  ⟨slot.rest, S, slot.filled value N, R, []⟩

end Slot

section Places

variable (slot : Slot) (S : List State) (N : List Node) (R : List JsonValue)

theorem leads_openString : Leads (slot.before S N R) [quote]
    ⟨.string, slot.rest :: S, slot.nodes N, R, []⟩ := by
  cases slot <;> exact leads_symbol (by simp [Slot.before, Slot.start]) fun _ _ _ _ => rfl

theorem leads_openObject : Leads (slot.before S N R) [ascii '{']
    ⟨.object, slot.rest :: S, .object [] :: slot.nodes N, R, []⟩ := by
  cases slot <;> exact leads_symbol (by simp [Slot.before, Slot.start]) fun _ _ _ _ => rfl

theorem leads_openArray : Leads (slot.before S N R) [ascii '[']
    ⟨.array, slot.rest :: S, .array [] :: slot.nodes N, R, []⟩ := by
  cases slot <;> exact leads_symbol (by simp [Slot.before, Slot.start]) fun _ _ _ _ => rfl

theorem leads_closeString (buf : StdString) :
    Leads ⟨.string, slot.rest :: S, slot.nodes N, R, buf⟩ [quote]
      (slot.behind S N R (.primitive buf .string)) := by
  cases slot <;> exact leads_symbol (by simp) fun _ _ _ _ => rfl

/-- The state in the body of an object. -/
def objectState (written : Bool) : State := if written then .objectItem else .object

/-- The state in the body of an array. -/
def arrayState (written : Bool) : State := if written then .arrayItem else .array

theorem leads_closeObject (written : Bool) (properties : List (StdString × JsonValue)) :
    Leads ⟨objectState written, slot.rest :: S, .object properties :: slot.nodes N, R, []⟩
      [ascii '}'] (slot.behind S N R (.object properties)) := by
  cases slot <;> cases written <;>
    exact leads_symbol (by simp [objectState]) fun _ _ _ _ => rfl

theorem leads_closeArray (written : Bool) (items : List JsonValue) :
    Leads ⟨arrayState written, slot.rest :: S, .array items :: slot.nodes N, R, []⟩
      [ascii ']'] (slot.behind S N R (.array items)) := by
  cases slot <;> cases written <;>
    exact leads_symbol (by simp [arrayState]) fun _ _ _ _ => rfl

/-- The name of a property, up to its colon. -/
theorem leads_name {name nameText : StdString} (written : Bool)
    (properties : List (StdString × JsonValue)) (h : quoted name = .ok nameText) :
    ∃ out, Utf8.respell name.length name = some out ∧
      Leads ⟨objectState written, S, .object properties :: N, R, []⟩
        (comma written ++ nameText ++ [ascii ':'])
        ((Slot.member out properties).before S N R) := by
  obtain ⟨body, hbody, rfl⟩ := of_quoted h
  obtain ⟨out, hout, hleads⟩ := leads_escapeAll (.objectPropertyName :: .objectItem :: S)
    (.object properties :: N) R [] hbody
  refine ⟨out, hout, ?_⟩
  have hcomma : Leads ⟨objectState written, S, .object properties :: N, R, []⟩ (comma written)
      ⟨.object, S, .object properties :: N, R, []⟩ := by
    cases written with
    | false => exact Steps.refl
    | true => exact leads_symbol (by simp [objectState]) fun _ _ _ _ => rfl
  have hopen : Leads ⟨.object, S, .object properties :: N, R, []⟩ [quote]
      ⟨.string, .objectPropertyName :: .objectItem :: S, .object properties :: N, R, []⟩ :=
    leads_symbol (by simp) fun _ _ _ _ => rfl
  have hclose : Leads ⟨.string, .objectPropertyName :: .objectItem :: S,
      .object properties :: N, R, out⟩ [quote]
      ⟨.objectPropertyName, .objectItem :: S, .property out :: .object properties :: N, R, []⟩ :=
    leads_symbol (by simp) fun _ _ _ _ => rfl
  have hcolon : Leads
      ⟨.objectPropertyName, .objectItem :: S, .property out :: .object properties :: N, R, []⟩
      [ascii ':'] ((Slot.member out properties).before S N R) :=
    leads_symbol (by simp) fun _ _ _ _ => rfl
  have hall := hcomma.trans (hopen.trans (hleads.trans (hclose.trans hcolon)))
  simpa using hall

/-- A string in its place. -/
theorem leads_quoted {value text : StdString} (h : quoted value = .ok text) :
    ∃ out, Utf8.respell value.length value = some out ∧
      Leads (slot.before S N R) text (slot.behind S N R (.primitive out .string)) := by
  obtain ⟨body, hbody, rfl⟩ := of_quoted h
  obtain ⟨out, hout, hleads⟩ := leads_escapeAll (slot.rest :: S) (slot.nodes N) R [] hbody
  exact ⟨out, hout, (leads_openString slot S N R).trans
    (hleads.trans (leads_closeString slot S N R out))⟩

end Places

end JsonParser

/-! ### Values -/

mutual

/-- The tree that the parser makes of the text of a value. -/
def JsonValue.reread : JsonValue → Option JsonValue
  | .null => none
  | .primitive value _ => (Utf8.respell value.length value).map (.primitive · .string)
  | .object properties => (rereadProperties properties).map .object
  | .array items => (rereadItems false false items).map .array

def JsonValue.rereadProperties :
    List (StdString × JsonValue) → Option (List (StdString × JsonValue))
  | [] => some []
  | (name, value) :: properties =>
    (Utf8.respell name.length name).bind fun name => value.reread.bind fun value =>
      (rereadProperties properties).map ((name, value) :: ·)

/-- `written`: the writer puts a comma before an item; `behind`: the parser waits for one. -/
def JsonValue.rereadItems : Bool → Bool → List JsonValue → Option (List JsonValue)
  | _, _, [] => some []
  | written, behind, item :: items =>
    if (written && !item.isArray) = behind then
      item.reread.bind fun value =>
        (rereadItems (written || !item.isArray) true items).map (value :: ·)
    else none

end

open JsonParser JsonValue

theorem JsonParser.stops_nullText (name : StdString) (properties : List (StdString × JsonValue))
    (S : List State) (N : List Node) (R : List JsonValue) :
    Stops ((Slot.member name properties).before S N R) nullText := by
  have hstop : Stops ((Slot.member name properties).before S N R) [ascii 'n'] :=
    stops_symbol (by simp [Slot.before, Slot.start]) fun _ _ _ _ => ⟨_, rfl⟩
  exact hstop.append

/-- A value that stands where a comma is waited for. -/
theorem JsonParser.stops_text {v : JsonValue} {text : StdString} (h : v.text = .ok text)
    (S : List State) (N : List Node) (R : List JsonValue) :
    Stops ⟨.arrayItem, S, N, R, []⟩ text := by
  have hstop : ∀ b ∈ [quote, ascii '{', ascii '['], Stops ⟨.arrayItem, S, N, R, []⟩ [b] := by
    intro b hb
    simp only [List.mem_cons, List.not_mem_nil, or_false] at hb
    obtain rfl | rfl | rfl := hb <;>
      exact stops_symbol (by simp) fun _ _ _ _ => ⟨_, rfl⟩
  match v with
  | .null => cases h
  | .primitive value type =>
    obtain ⟨body, -, rfl⟩ := of_quoted h
    exact (hstop quote (by simp)).append
  | .object properties =>
    rw [JsonValue.text, bind_eq_ok] at h
    obtain ⟨body, -, h⟩ := h
    cases h
    exact (hstop (ascii '{') (by simp)).append
  | .array items =>
    rw [JsonValue.text, bind_eq_ok] at h
    obtain ⟨body, -, h⟩ := h
    cases h
    exact (hstop (ascii '[') (by simp)).append

mutual

theorem JsonValue.comes_value (v : JsonValue) {text : StdString} (h : v.text = .ok text)
    (slot : Slot) (S : List State) (N : List Node) (R : List JsonValue) :
    Comes (slot.before S N R) text (v.reread.map (slot.behind S N R)) := by
  match v with
  | .null => cases h
  | .primitive value type =>
    obtain ⟨out, hout, hleads⟩ := leads_quoted slot S N R h
    rw [JsonValue.reread, hout]
    exact hleads
  | .object properties =>
    rw [JsonValue.text, bind_eq_ok] at h
    obtain ⟨body, hbody, h⟩ := h
    cases h
    have hproperties := JsonValue.comes_properties properties hbody [] (slot.rest :: S)
      (slot.nodes N) R
    rw [JsonValue.reread, Option.map_map]
    refine (leads_openObject slot S N R).reads ?_
    rw [Option.map_eq_bind]
    exact hproperties.bind fun properties' _ => leads_closeObject slot S N R _ properties'
  | .array items =>
    rw [JsonValue.text, bind_eq_ok] at h
    obtain ⟨body, hbody, h⟩ := h
    cases h
    have hitems := @JsonValue.comes_items items false false body id hbody [] (slot.rest :: S)
      (slot.nodes N) R
    rw [JsonValue.reread, Option.map_map]
    refine (leads_openArray slot S N R).reads ?_
    rw [Option.map_eq_bind]
    exact hitems.bind fun items' _ => leads_closeArray slot S N R _ items'

theorem JsonValue.comes_member (v : JsonValue) {text : StdString}
    (h : v.memberText v.text = .ok text) (name : StdString)
    (properties : List (StdString × JsonValue)) (S : List State) (N : List Node)
    (R : List JsonValue) :
    Comes ((Slot.member name properties).before S N R) text
      (v.reread.map ((Slot.member name properties).behind S N R)) := by
  match v with
  | .null =>
    cases h
    exact stops_nullText name properties S N R
  | .primitive value type => exact JsonValue.comes_value (.primitive value type) h _ S N R
  | .object properties' => exact JsonValue.comes_value (.object properties') h _ S N R
  | .array items => exact JsonValue.comes_value (.array items) h _ S N R

theorem JsonValue.comes_properties (properties : List (StdString × JsonValue)) {written : Bool}
    {text : StdString} (h : propertiesText written properties = .ok text)
    (done : List (StdString × JsonValue)) (S : List State) (N : List Node)
    (R : List JsonValue) :
    Comes ⟨objectState written, S, .object done :: N, R, []⟩ text
      ((rereadProperties properties).map fun properties' =>
        ⟨objectState (written || !properties.isEmpty), S, .object (done ++ properties') :: N, R,
          []⟩) := by
  match properties with
  | [] =>
    cases h
    simpa [rereadProperties, Reads] using Steps.refl
  | (name, value) :: properties =>
    rw [propertiesText, bind_eq_ok] at h
    obtain ⟨nameText, hname, h⟩ := h
    obtain ⟨valueText, hvalue, h⟩ := bind_eq_ok.1 h
    obtain ⟨rest, hrest, h⟩ := bind_eq_ok.1 h
    cases h
    obtain ⟨name', hname', hleads⟩ := leads_name S N R written done hname
    have hmember := JsonValue.comes_member value hvalue name' done S N R
    have hall := hleads.reads (hmember.bind fun value' _ =>
      JsonValue.comes_properties properties hrest (done ++ [(name', value')]) S N R)
    have htext : comma written ++ nameText ++ ascii ':' :: valueText ++ rest =
        comma written ++ nameText ++ [ascii ':'] ++ (valueText ++ rest) := by simp
    rw [htext]
    refine cast (congrArg (Comes _ _) ?_) hall
    rw [rereadProperties, hname', Option.bind_some]
    cases value.reread with
    | none => rfl
    | some value' =>
      cases rereadProperties properties with
      | none => rfl
      | some properties' => simp [objectState]

theorem JsonValue.comes_items (items : List JsonValue) {written behind : Bool}
    {text : StdString} (hcomma : written → behind) (h : itemsText written items = .ok text)
    (done : List JsonValue) (S : List State) (N : List Node) (R : List JsonValue) :
    Comes ⟨arrayState behind, S, .array done :: N, R, []⟩ text
      ((rereadItems written behind items).map fun items' =>
        ⟨arrayState (behind || !items.isEmpty), S, .array (done ++ items') :: N, R, []⟩) := by
  match items with
  | [] =>
    cases h
    simpa [rereadItems, Reads] using Steps.refl
  | item :: items =>
    rw [itemsText, bind_eq_ok] at h
    obtain ⟨itemText, hitem, h⟩ := h
    obtain ⟨rest, hrest, h⟩ := bind_eq_ok.1 h
    cases h
    rw [rereadItems]
    by_cases hread : (written && !item.isArray) = behind
    · have hcommas : Comes ⟨arrayState behind, S, .array done :: N, R, []⟩
          (comma (written && !item.isArray)) (some ((Slot.item done).before S N R)) := by
        rw [hread]
        cases behind with
        | false => exact Steps.refl
        | true => exact leads_symbol (by simp [arrayState]) fun _ _ _ _ => rfl
      have hvalue := JsonValue.comes_value item hitem (.item done) S N R
      have hall := Steps.reads hcommas (hvalue.bind fun value' _ =>
        @JsonValue.comes_items items (written || !item.isArray) true rest (fun _ => rfl) hrest
          (done ++ [value']) S N R)
      rw [List.append_assoc, if_pos hread]
      refine cast (congrArg (Comes _ _) ?_) hall
      cases item.reread with
      | none => rfl
      | some value' =>
        cases rereadItems (written || !item.isArray) true items with
        | none => rfl
        | some items' => simp [arrayState]
    · -- the parser waits for a comma that the writer has left out
      have hmissing : (written && !item.isArray) = false ∧ behind = true := by
        cases behind with
        | false =>
          cases written with
          | false => exact absurd rfl hread
          | true => cases hcomma rfl
        | true =>
          exact ⟨Bool.eq_false_iff.2 hread, rfl⟩
      obtain ⟨hnone, rfl⟩ := hmissing
      rw [if_neg hread, hnone]
      exact (stops_text hitem S (.array done :: N) R).append

end

end Vds
