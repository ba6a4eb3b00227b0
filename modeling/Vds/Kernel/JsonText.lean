import Vds.Kernel.Json

/-! The text that `json_value::str` writes, without the states of the writer: a comma stands
before every property but the first, and before an item that is no array once an item that is no
array has been written. -/

namespace Vds

open JsonWriter (quoted nullText)

def JsonValue.isArray : JsonValue → Bool
  | .array _ => true
  | _ => false

def JsonText.comma (written : Bool) : StdString := if written then [ascii ','] else []

open JsonText (comma)

/-- A null value of a property has a text of its own. -/
def JsonValue.memberText (value : JsonValue) (text : Except JsonError StdString) :
    Except JsonError StdString :=
  match value with
  | .null => .ok nullText
  | _ => text

mutual

def JsonValue.text : JsonValue → Except JsonError StdString
  | .null => .error .undefined
  | .primitive value _ => quoted value
  | .object properties => do
    let body ← propertiesText false properties
    return ascii '{' :: body ++ [ascii '}']
  | .array items => do
    let body ← itemsText false items
    return ascii '[' :: body ++ [ascii ']']

def JsonValue.propertiesText : Bool → List (StdString × JsonValue) → Except JsonError StdString
  | _, [] => .ok []
  | written, (name, value) :: properties => do
    let name ← quoted name
    let value ← value.memberText value.text
    let rest ← propertiesText true properties
    return comma written ++ name ++ ascii ':' :: value ++ rest

def JsonValue.itemsText : Bool → List JsonValue → Except JsonError StdString
  | _, [] => .ok []
  | written, item :: items => do
    let text ← item.text
    let rest ← itemsText (written || !item.isArray) items
    return comma (written && !item.isArray) ++ text ++ rest

end

namespace JsonWriter

/-- What is put before a value, and the state behind it. -/
def enter : State → JsonValue → Option (StdString × State)
  | .property, .null => none
  | .property, _ => some ([], .propertyEnd)
  | .startArray, .array _ => some ([], .startArray)
  | .startArray, _ => some ([], .arrayBody)
  | .arrayBody, .array _ => some ([], .arrayBody)
  | .arrayBody, _ => some ([ascii ','], .arrayBody)
  | .bof, .object _ => some ([], .arrayBody)
  | .bof, .array _ => some ([], .propertyEnd)
  | _, _ => none

/-- The writer in another state, with more text. -/
def wrote (w : JsonWriter) (state : State) (text : StdString) : JsonWriter :=
  { w with state := state, stream := w.stream ++ text }

@[simp] theorem wrote_state (w : JsonWriter) (st : State) (t : StdString) :
    (w.wrote st t).state = st := rfl

@[simp] theorem wrote_wrote (w : JsonWriter) (st st' : State) (t t' : StdString) :
    (w.wrote st t).wrote st' t' = w.wrote st' (t ++ t') := by
  simp only [wrote, List.append_assoc]

theorem map_ok {α β ε : Type} (f : α → β) (a : α) :
    (Except.ok a : Except ε α).map f = .ok (f a) := rfl

theorem writeString_eq (w : JsonWriter) (value : StdString) :
    w.writeString value = (quoted value).map (w.wrote w.state) := by
  rw [writeString]
  cases quoted value with
  | error e => rfl
  | ok text => rfl

theorem writeStringValue_eq {w : JsonWriter} {value : StdString} {type : PrimitiveType}
    {pre : StdString} {st : State} (h : enter w.state (.primitive value type) = some (pre, st)) :
    w.writeStringValue value = (quoted value).map fun t => w.wrote st (pre ++ t) := by
  obtain ⟨state, path, stream⟩ := w
  cases state <;> simp only [enter, Option.some.injEq, Prod.mk.injEq, reduceCtorEq] at h <;>
    obtain ⟨rfl, rfl⟩ := h <;> simp only [writeStringValue, writeString_eq] <;>
    cases quoted value <;> simp [Except.map, wrote, put]

theorem startObject_eq {w : JsonWriter} {properties : List (StdString × JsonValue)}
    {pre : StdString} {st : State} (h : enter w.state (.object properties) = some (pre, st)) :
    w.startObject = .ok (({ w with statePath := st :: w.statePath } : JsonWriter).wrote
      .startObject (pre ++ [ascii '{'])) := by
  obtain ⟨state, path, stream⟩ := w
  cases state <;> simp only [enter, Option.some.injEq, Prod.mk.injEq, reduceCtorEq] at h <;>
    obtain ⟨rfl, rfl⟩ := h <;> simp [startObject, wrote, put]

theorem startArray_eq {w : JsonWriter} {items : List JsonValue}
    {pre : StdString} {st : State} (h : enter w.state (.array items) = some (pre, st)) :
    w.startArray = .ok (({ w with statePath := st :: w.statePath } : JsonWriter).wrote
      .startArray (pre ++ [ascii '['])) := by
  obtain ⟨state, path, stream⟩ := w
  cases state <;> simp only [enter, Option.some.injEq, Prod.mk.injEq, reduceCtorEq] at h <;>
    obtain ⟨rfl, rfl⟩ := h <;> simp [startArray, wrote, put]

/-- The state in the body of an object. -/
def objectState (written : Bool) : State := if written then .objectBody else .startObject

/-- The state in the body of an array. -/
def arrayState (written : Bool) : State := if written then .arrayBody else .startArray

theorem endObject_eq {w : JsonWriter} {written : Bool} {st : State} {path : List State}
    (h : w.state = objectState written) (hp : w.statePath = st :: path) :
    w.endObject = .ok (({ w with statePath := path } : JsonWriter).wrote st [ascii '}']) := by
  obtain ⟨state, path', stream⟩ := w
  subst h hp
  cases written <;> rfl

theorem endArray_eq {w : JsonWriter} {written : Bool} {st : State} {path : List State}
    (h : w.state = arrayState written) (hp : w.statePath = st :: path) :
    w.endArray = .ok (({ w with statePath := path } : JsonWriter).wrote st [ascii ']']) := by
  obtain ⟨state, path', stream⟩ := w
  subst h hp
  cases written <;> rfl

theorem startProperty_eq {w : JsonWriter} {written : Bool} (h : w.state = objectState written)
    (name : StdString) :
    w.startProperty name = (quoted name).map fun t =>
      ({ w with statePath := .objectBody :: w.statePath } : JsonWriter).wrote .property
        (comma written ++ t ++ [ascii ':']) := by
  obtain ⟨state, path, stream⟩ := w
  subst h
  cases written <;> simp only [objectState, startProperty, writeString_eq, comma] <;>
    cases quoted name <;> simp [Except.map, wrote, put, bind, Except.bind, pure, Except.pure]

theorem endProperty_eq {w : JsonWriter} {st : State} {path : List State}
    (h : w.state = .propertyEnd) (hp : w.statePath = st :: path) :
    w.endProperty = .ok { w with state := st, statePath := path } := by
  obtain ⟨state, path', stream⟩ := w
  subst h hp
  rfl

theorem writeNullValue_eq {w : JsonWriter} (h : w.state = .property) :
    w.writeNullValue = .ok (w.wrote .propertyEnd nullText) := by
  obtain ⟨state, path, stream⟩ := w
  subst h
  rfl

end JsonWriter

open JsonWriter

/-- The value of a property, a null one too, is written. -/
def JsonValue.writeMember (value : JsonValue) (w : JsonWriter) : JsonWriter.Result :=
  match value with
  | .null => w.writeNullValue
  | _ => value.write w

theorem JsonValue.writeProperties_cons (name : StdString) (value : JsonValue)
    (properties : List (StdString × JsonValue)) (w : JsonWriter) :
    writeProperties ((name, value) :: properties) w = (do
      let w ← w.startProperty name
      let w ← value.writeMember w
      let w ← w.endProperty
      writeProperties properties w) := by
  cases value <;> rfl

mutual

theorem JsonValue.write_eq (v : JsonValue) (w : JsonWriter) {pre : StdString}
    {st : JsonWriter.State} (h : enter w.state v = some (pre, st)) :
    v.write w = v.text.map fun t => w.wrote st (pre ++ t) := by
  match v with
  | .null => rfl
  | .primitive value type =>
    rw [JsonValue.write, JsonValue.text]
    exact writeStringValue_eq h
  | .object properties =>
    rw [JsonValue.write, JsonValue.text, startObject_eq h]
    have hbody := @writeProperties_eq properties (({ w with
      statePath := st :: w.statePath } : JsonWriter).wrote .startObject (pre ++ [ascii '{']))
      false rfl
    simp only [bind, Except.bind, hbody]
    cases propertiesText false properties with
    | error e => rfl
    | ok body =>
      simp only [Except.map, pure, Except.pure]
      rw [@endObject_eq _ (!properties.isEmpty) st w.statePath (by simp) rfl]
      simp [wrote]
  | .array items =>
    rw [JsonValue.write, JsonValue.text, startArray_eq h]
    have hbody := @writeItems_eq items (({ w with
      statePath := st :: w.statePath } : JsonWriter).wrote .startArray (pre ++ [ascii '[']))
      false rfl
    simp only [bind, Except.bind, hbody]
    cases itemsText false items with
    | error e => rfl
    | ok body =>
      simp only [Except.map, pure, Except.pure]
      rw [@endArray_eq _ (items.any fun item => !item.isArray) st w.statePath (by simp) rfl]
      simp [wrote]

theorem JsonValue.writeProperties_eq (properties : List (StdString × JsonValue))
    {w : JsonWriter} {written : Bool} (h : w.state = objectState written) :
    writeProperties properties w = (propertiesText written properties).map
      (w.wrote (objectState (written || !properties.isEmpty))) := by
  match properties with
  | [] =>
    simp only [writeProperties, propertiesText, List.isEmpty_nil, Bool.not_true, Bool.or_false,
      map_ok, ← h, wrote, List.append_nil]
  | (name, value) :: properties =>
    rw [writeProperties_cons, propertiesText, startProperty_eq h]
    cases quoted name with
    | error e => rfl
    | ok nameText =>
      simp only [map_ok, bind, Except.bind]
      rw [JsonValue.writeMember_eq value _ rfl]
      cases value.memberText value.text with
      | error e => rfl
      | ok valueText =>
        simp only [map_ok]
        rw [@endProperty_eq _ .objectBody w.statePath rfl rfl]
        simp only []
        rw [@writeProperties_eq properties _ true rfl]
        cases propertiesText true properties with
        | error e => rfl
        | ok rest => simp [Except.map, wrote, pure, Except.pure, objectState]

theorem JsonValue.writeMember_eq (value : JsonValue) (w : JsonWriter) (h : w.state = .property) :
    value.writeMember w =
      (value.memberText value.text).map fun t => w.wrote .propertyEnd t := by
  have henter := congrArg (fun st => enter st value) h
  match value with
  | .null => exact writeNullValue_eq h
  | .primitive value type => exact JsonValue.write_eq (.primitive value type) w henter
  | .object properties => exact JsonValue.write_eq (.object properties) w henter
  | .array items => exact JsonValue.write_eq (.array items) w henter

theorem JsonValue.writeItems_eq (items : List JsonValue)
    {w : JsonWriter} {written : Bool} (h : w.state = arrayState written) :
    writeItems items w = (itemsText written items).map
      (w.wrote (arrayState (written || items.any fun item => !item.isArray))) := by
  match items with
  | [] =>
    simp only [writeItems, itemsText, List.any_nil, Bool.or_false, map_ok, ← h, wrote,
      List.append_nil]
  | .null :: items => rfl
  | item :: items =>
    rw [writeItems, itemsText]
    have hitem : item.write w = item.text.map fun t => w.wrote (arrayState
        (written || !item.isArray)) (comma (written && !item.isArray) ++ t) := by
      cases hnull : item with
      | null => rfl
      | _ => 
        refine hnull ▸ JsonValue.write_eq item w ?_
        rw [h, hnull]
        cases written <;> rfl
    rw [hitem]
    cases item.text with
    | error e => rfl
    | ok text =>
      simp only [map_ok, bind, Except.bind]
      rw [@writeItems_eq items _ (written || !item.isArray) rfl]
      cases itemsText (written || !item.isArray) items with
      | error e => rfl
      | ok rest => simp [Except.map, pure, Except.pure, Bool.or_assoc]

end

/-- An object or an array has a text. -/
def JsonValue.isContainer : JsonValue → Bool
  | .object _ => true
  | .array _ => true
  | _ => false

theorem JsonValue.str_eq {v : JsonValue} (h : v.isContainer) : v.str = v.text := by
  rw [JsonValue.str]
  cases v with
  | object properties =>
    rw [JsonValue.write_eq _ _ rfl]
    cases (JsonValue.object properties).text <;> rfl
  | array items =>
    rw [JsonValue.write_eq _ _ rfl]
    cases (JsonValue.array items).text <;> rfl
  | _ => cases h

theorem JsonValue.str_of_not_isContainer {v : JsonValue} (h : v.isContainer = false) :
    ∃ e, v.str = .error e := by
  cases v with
  | null => exact ⟨_, rfl⟩
  | primitive value type => exact ⟨_, rfl⟩
  | _ => cases h

end Vds
