import Vds.Kernel.JsonReading

/-! Which trees come back from `json_value::str` through `json_parser`, whatever the pieces. -/

namespace Vds

open JsonWriter (escapeAll quoted)
open JsonParser
open Library.PushMachine Library.Fallible

/-! ### The whole text -/

theorem JsonParser.comes_root {v : JsonValue} {text : StdString} (hv : v.isContainer)
    (h : v.text = .ok text) :
    Comes ⟨.bof, [], [], [], []⟩ text (v.reread.map fun v' => ⟨.eof, [], [], [v'], []⟩) := by
  match v with
  | .null => cases hv
  | .primitive _ _ => cases hv
  | .object properties =>
    rw [JsonValue.text, bind_eq_ok] at h
    obtain ⟨body, hbody, h⟩ := h
    cases h
    have hopen : Leads ⟨.bof, [], [], [], []⟩ [ascii '{']
        ⟨objectState false, [.bof], [.object []], [], []⟩ :=
      leads_symbol (by simp) fun _ _ _ _ => rfl
    have hclose : ∀ written properties', Leads
        ⟨objectState written, [.bof], [.object properties'], [], []⟩ [ascii '}']
        ⟨.eof, [], [], [.object properties'], []⟩ := by
      intro written properties'
      cases written <;> exact leads_symbol (by simp [objectState]) fun _ _ _ _ => rfl
    rw [JsonValue.reread, Option.map_map]
    refine hopen.reads ?_
    rw [Option.map_eq_bind]
    exact (JsonValue.comes_properties properties hbody [] [.bof] [] []).bind
      fun properties' _ => hclose _ properties'
  | .array items =>
    rw [JsonValue.text, bind_eq_ok] at h
    obtain ⟨body, hbody, h⟩ := h
    cases h
    have hopen : Leads ⟨.bof, [], [], [], []⟩ [ascii '[']
        ⟨arrayState false, [.bof], [.array []], [], []⟩ :=
      leads_symbol (by simp) fun _ _ _ _ => rfl
    have hclose : ∀ written items', Leads
        ⟨arrayState written, [.bof], [.array items'], [], []⟩ [ascii ']']
        ⟨.eof, [], [], [.array items'], []⟩ := by
      intro written items'
      cases written <;> exact leads_symbol (by simp [arrayState]) fun _ _ _ _ => rfl
    rw [JsonValue.reread, Option.map_map]
    refine hopen.reads ?_
    rw [Option.map_eq_bind]
    exact (@JsonValue.comes_items items false false body id hbody [] [.bof] [] []).bind
      fun items' _ => hclose _ items'

/-- No piece but the last call is taken for the end of the data. -/
theorem JsonParser.foldlM_write {pieces : List ConstDataBuffer}
    (h : ∀ piece ∈ pieces, piece ≠ []) (p : JsonParser) :
    pieces.foldlM write p = pieces.flatten.foldlM symbol p := by
  rw [← foldlM_pieces]
  induction pieces generalizing p with
  | nil => rfl
  | cons piece pieces ih =>
    have hpiece : p.write piece = piece.foldlM symbol p := by
      rw [write, if_neg]
      · rfl
      · rw [List.isEmpty_iff]
        exact h piece (List.mem_cons_self ..)
    rw [List.foldlM_cons, List.foldlM_cons, hpiece]
    exact bind_congr fun p' => ih (fun piece' h' => h piece' (List.mem_cons_of_mem _ h')) p'

/-- The pieces of the text of a value come to the tree that `reread` names. -/
theorem JsonParser.parsePieces_text {v : JsonValue} {text : StdString} (hv : v.isContainer)
    (h : v.text = .ok text) (streamName : StdString) {pieces : List ConstDataBuffer}
    (hne : ∀ piece ∈ pieces, piece ≠ []) (hjoin : pieces.flatten = text) :
    (∃ v', v.reread = some v' ∧ parsePieces streamName pieces = .ok v') ∨
      v.reread = none ∧ ∃ e, parsePieces streamName pieces = .error e := by
  have hcreate : Shows (create streamName ⟨false, false⟩) ⟨.bof, [], [], [], []⟩ :=
    ⟨streamName, 1, 1, 0, rfl⟩
  rw [parsePieces, foldlM_write hne, hjoin]
  obtain ⟨c', p', hsome, hrun, hp'⟩ | ⟨hnone, e, he⟩ := (comes_root hv h).run hcreate
  · obtain ⟨v', hv', rfl⟩ := Option.map_eq_some_iff.1 hsome
    obtain ⟨name, line, column, num, rfl⟩ := hp'
    refine Or.inl ⟨v', hv', ?_⟩
    rw [hrun]
    rfl
  · refine Or.inr ⟨Option.map_eq_none_iff.1 hnone, e, ?_⟩
    rw [he]
    rfl

/-! ### The trees that come back -/

mutual

/-- Strings of short characters, no integer, no null value, and no array beside another item. -/
def JsonValue.readable : JsonValue → Bool
  | .null => false
  | .primitive value type => type = .string && Utf8.isShort value
  | .object properties => readableProperties properties
  | .array items => (items.length ≤ 1 || items.all fun item => !item.isArray) && readableItems items

def JsonValue.readableProperties : List (StdString × JsonValue) → Bool
  | [] => true
  | (name, value) :: properties =>
    Utf8.isShort name && value.readable && readableProperties properties

def JsonValue.readableItems : List JsonValue → Bool
  | [] => true
  | item :: items => item.readable && readableItems items

end

theorem Utf8.respell_eq_self (value : StdString) :
    Utf8.respell value.length value = some value ↔ Utf8.isShort value :=
  ⟨fun h => Utf8.isShort_of_respell h (le_refl _), fun h => Utf8.respell_of_isShort h (le_refl _)⟩

/-- The items behind the first one: the writer has a comma for them if the first is no array. -/
theorem JsonValue.rereadItems_after (item : JsonValue) (items : List JsonValue)
    (h : rereadItems true true items = some items ↔
      (items.all fun item => !item.isArray) ∧ readableItems items) :
    rereadItems (!item.isArray) true items = some items ↔
      ((item :: items).length ≤ 1 || (item :: items).all fun item => !item.isArray) ∧
        readableItems items := by
  cases hkind : item.isArray with
  | false => 
    rw [Bool.not_false, h]
    simp [hkind]
    rintro - rfl
    simp
  | true =>
    cases items with
    | nil => simp [rereadItems, readableItems]
    | cons second items => simp [rereadItems, hkind]

mutual

theorem JsonValue.reread_eq_self (v : JsonValue) : v.reread = some v ↔ v.readable := by
  match v with
  | .null => simp [JsonValue.reread, JsonValue.readable]
  | .primitive value type =>
    rw [JsonValue.reread, JsonValue.readable, Option.map_eq_some_iff, Bool.and_eq_true,
      decide_eq_true_eq, ← Utf8.respell_eq_self]
    constructor
    · rintro ⟨out, hout, heq⟩
      cases heq
      exact ⟨rfl, hout⟩
    · rintro ⟨rfl, h⟩
      exact ⟨value, h, rfl⟩
  | .object properties =>
    rw [JsonValue.reread, JsonValue.readable, Option.map_eq_some_iff,
      ← JsonValue.rereadProperties_eq_self properties]
    simp
  | .array [] => simp [JsonValue.reread, JsonValue.readable, JsonValue.rereadItems,
      JsonValue.readableItems]
  | .array (item :: items) =>
    have hitem := JsonValue.reread_eq_self item
    have hrest := JsonValue.rereadItems_after item items
      (JsonValue.rereadItems_eq_self items)
    rw [JsonValue.reread, JsonValue.readable, readableItems, JsonValue.rereadItems,
      if_pos (by rfl)]
    simp only [Bool.false_or, Option.map_eq_some_iff, Option.bind_eq_some_iff, Bool.and_eq_true,
      ← hitem]
    constructor
    · rintro ⟨items', ⟨value, hvalue, values, hvalues, rfl⟩, heq⟩
      cases heq
      exact ⟨(hrest.1 hvalues).1, hvalue, (hrest.1 hvalues).2⟩
    · rintro ⟨hall, hvalue, hread⟩
      exact ⟨_, ⟨item, hvalue, items, hrest.2 ⟨hall, hread⟩, rfl⟩, rfl⟩

theorem JsonValue.rereadProperties_eq_self (properties : List (StdString × JsonValue)) :
    rereadProperties properties = some properties ↔ readableProperties properties := by
  match properties with
  | [] => simp [rereadProperties, readableProperties]
  | (name, value) :: properties =>
    rw [rereadProperties, readableProperties, Bool.and_eq_true, Bool.and_eq_true,
      ← Utf8.respell_eq_self, ← JsonValue.reread_eq_self value,
      ← JsonValue.rereadProperties_eq_self properties]
    simp only [Option.bind_eq_some_iff, Option.map_eq_some_iff, List.cons.injEq, Prod.mk.injEq]
    constructor
    · rintro ⟨name', hname, value', hvalue, properties', hproperties, ⟨rfl, rfl⟩, rfl⟩
      exact ⟨⟨hname, hvalue⟩, hproperties⟩
    · rintro ⟨⟨hname, hvalue⟩, hproperties⟩
      exact ⟨name, hname, value, hvalue, properties, hproperties, ⟨rfl, rfl⟩, rfl⟩

/-- Items that all stand behind a comma. -/
theorem JsonValue.rereadItems_eq_self (items : List JsonValue) :
    rereadItems true true items = some items ↔
      (items.all fun item => !item.isArray) ∧ readableItems items := by
  match items with
  | [] => simp [rereadItems, readableItems]
  | item :: items =>
    rw [rereadItems, readableItems, List.all_cons]
    have hitem := JsonValue.reread_eq_self item
    have hitems := JsonValue.rereadItems_eq_self items
    cases hkind : item.isArray with
    | true => simp
    | false =>
      rw [if_pos (by rfl)]
      simp only [Bool.not_false, Bool.or_true, Bool.true_and, Bool.and_eq_true,
        Option.bind_eq_some_iff, Option.map_eq_some_iff, List.cons.injEq, ← hitem]
      constructor
      · rintro ⟨value, hvalue, values, hvalues, rfl, rfl⟩
        exact ⟨(hitems.1 hvalues).1, hvalue, (hitems.1 hvalues).2⟩
      · rintro ⟨hall, hvalue, hread⟩
        exact ⟨item, hvalue, items, hitems.2 ⟨hall, hread⟩, rfl, rfl⟩

end

/-! ### Readable trees have a text -/

theorem JsonWriter.quoted_of_respell {value out : StdString}
    (h : Utf8.respell value.length value = some out) : ∃ text, quoted value = .ok text := by
  have hbody : ∀ (n : ℕ) {value out : StdString}, Utf8.respell n value = some out →
      ∃ body, escapeAll n value = .ok body := by
    intro n
    induction n with
    | zero => exact fun _ => ⟨[], rfl⟩
    | succ n ih =>
      intro value out h
      match value with
      | [] => exact ⟨[], rfl⟩
      | a :: value =>
        obtain ⟨ch, rest, bytes, tail, hnext, -, htail, -⟩ := Utf8.respell_cons_some h
        obtain ⟨body, hbody⟩ := ih htail
        rw [escapeAll_cons hnext, hbody]
        exact ⟨_, rfl⟩
  obtain ⟨body, hbody⟩ := hbody value.length h
  exact ⟨quote :: body ++ [quote], by rw [quoted, hbody]; rfl⟩

mutual

theorem JsonValue.text_of_reread (v : JsonValue) {v' : JsonValue} (h : v.reread = some v') :
    ∃ text, v.text = .ok text := by
  match v with
  | .null => cases h
  | .primitive value type =>
    obtain ⟨out, hout, -⟩ := Option.map_eq_some_iff.1 h
    exact JsonWriter.quoted_of_respell hout
  | .object properties =>
    obtain ⟨properties', hproperties, -⟩ := Option.map_eq_some_iff.1 h
    obtain ⟨body, hbody⟩ := JsonValue.propertiesText_of_reread properties false hproperties
    rw [JsonValue.text, hbody]
    exact ⟨_, rfl⟩
  | .array items =>
    obtain ⟨items', hitems, -⟩ := Option.map_eq_some_iff.1 h
    obtain ⟨body, hbody⟩ := JsonValue.itemsText_of_reread items hitems
    rw [JsonValue.text, hbody]
    exact ⟨_, rfl⟩

theorem JsonValue.propertiesText_of_reread (properties : List (StdString × JsonValue))
    (written : Bool) {properties' : List (StdString × JsonValue)}
    (h : rereadProperties properties = some properties') :
    ∃ text, propertiesText written properties = .ok text := by
  match properties with
  | [] => exact ⟨[], rfl⟩
  | (name, value) :: properties =>
    rw [rereadProperties] at h
    simp only [Option.bind_eq_some_iff, Option.map_eq_some_iff] at h
    obtain ⟨name', hname, value', hvalue, rest, hrest, -⟩ := h
    obtain ⟨nameText, hnameText⟩ := JsonWriter.quoted_of_respell hname
    obtain ⟨valueText, hvalueText⟩ := JsonValue.text_of_reread value hvalue
    obtain ⟨restText, hrestText⟩ := JsonValue.propertiesText_of_reread properties true hrest
    have hmember : value.memberText value.text = .ok valueText := by
      cases value with
      | null => cases hvalueText
      | _ => exact hvalueText
    rw [propertiesText, hnameText, hrestText, hmember]
    exact ⟨_, rfl⟩

theorem JsonValue.itemsText_of_reread (items : List JsonValue) {written behind : Bool}
    {items' : List JsonValue} (h : rereadItems written behind items = some items') :
    ∃ text, itemsText written items = .ok text := by
  match items with
  | [] => exact ⟨[], rfl⟩
  | item :: items =>
    rw [rereadItems] at h
    split_ifs at h
    simp only [Option.bind_eq_some_iff, Option.map_eq_some_iff] at h
    obtain ⟨value, hvalue, rest, hrest, -⟩ := h
    obtain ⟨itemText, hitemText⟩ := JsonValue.text_of_reread item hvalue
    obtain ⟨restText, hrestText⟩ := JsonValue.itemsText_of_reread items hrest
    rw [itemsText, hitemText, hrestText]
    exact ⟨_, rfl⟩

end

theorem JsonValue.text_ne_nil {v : JsonValue} {text : StdString} (hv : v.isContainer)
    (h : v.text = .ok text) : text ≠ [] := by
  match v with
  | .null => cases hv
  | .primitive _ _ => cases hv
  | .object properties =>
    rw [JsonValue.text, bind_eq_ok] at h
    obtain ⟨body, -, h⟩ := h
    cases h
    exact List.cons_ne_nil _ _
  | .array items =>
    rw [JsonValue.text, bind_eq_ok] at h
    obtain ⟨body, -, h⟩ := h
    cases h
    exact List.cons_ne_nil _ _

/-! ### The round trip -/

/-- The value has a text, and the parser makes the value of its text, in any pieces. -/
def JsonValue.RoundTrips (v : JsonValue) : Prop :=
  ∃ text, v.str = .ok text ∧ ∀ (streamName : StdString) (pieces : List ConstDataBuffer),
    (∀ piece ∈ pieces, piece ≠ []) → pieces.flatten = text →
      parsePieces streamName pieces = .ok v

theorem JsonValue.reread_of_roundTrips {v : JsonValue} (h : v.RoundTrips) :
    v.isContainer ∧ v.reread = some v := by
  obtain ⟨text, htext, hparse⟩ := h
  cases hv : v.isContainer with
  | false =>
    obtain ⟨e, he⟩ := JsonValue.str_of_not_isContainer hv
    cases htext.symm.trans he
  | true =>
    rw [JsonValue.str_eq hv] at htext
    have hne : ∀ piece ∈ [text], piece ≠ [] := by
      intro piece hpiece
      rw [List.mem_singleton.1 hpiece]
      exact JsonValue.text_ne_nil hv htext
    have hone := hparse [] [text] hne (List.flatten_singleton ..)
    obtain ⟨v', hv', hparse'⟩ | ⟨-, e, he⟩ :=
      parsePieces_text hv htext [] hne (List.flatten_singleton ..)
    · cases hone.symm.trans hparse'
      exact ⟨rfl, hv'⟩
    · cases hone.symm.trans he

theorem JsonValue.roundTrips_of_reread {v : JsonValue} (hv : v.isContainer)
    (h : v.reread = some v) : v.RoundTrips := by
  obtain ⟨text, htext⟩ := JsonValue.text_of_reread v h
  refine ⟨text, (JsonValue.str_eq hv).trans htext, fun streamName pieces hne hjoin => ?_⟩
  obtain ⟨v', hv', hparse⟩ | ⟨hnone, -⟩ := parsePieces_text hv htext streamName hne hjoin
  · cases h.symm.trans hv'
    exact hparse
  · cases h.symm.trans hnone

/-- A tree comes back unchanged if and only if it is a readable object or array. -/
theorem JsonValue.roundTrips_iff_readable (v : JsonValue) :
    v.RoundTrips ↔ v.isContainer ∧ v.readable := by
  rw [← JsonValue.reread_eq_self]
  exact ⟨JsonValue.reread_of_roundTrips, fun h => JsonValue.roundTrips_of_reread h.1 h.2⟩

/-- An object whose one property is a string of the euro sign. -/
def JsonValue.priceObject : JsonValue :=
  .object [([ascii 'a'], .primitive [0xE2, 0x82, 0xAC] .string)]

/-- The euro sign comes back as three bytes that are no UTF-8. -/
theorem JsonValue.priceObject_not_roundTrips : ¬ JsonValue.priceObject.RoundTrips := by
  intro h
  have hself := (JsonValue.reread_of_roundTrips h).2
  have hback : JsonValue.priceObject.reread =
      some (.object [([ascii 'a'], .primitive [0xC2, 0x82, 0xAC] .string)]) := rfl
  have heq := hback.symm.trans hself
  simp only [JsonValue.priceObject, Option.some.injEq, JsonValue.object.injEq,
    List.cons.injEq, Prod.mk.injEq, JsonValue.primitive.injEq] at heq
  exact absurd heq.1.2.1.1 (by decide)

end Vds
