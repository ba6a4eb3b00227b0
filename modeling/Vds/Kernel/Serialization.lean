import Vds.Kernel.Canonical
import Vds.Kernel.Crypto
import Vds.Kernel.JsonRoundTrip
import Vds.Library.SortedMap

/-! The types that `operator <<` and `operator >>` carry, as the templates build them from one
another: a value of each of them comes back from its bytes, and a reader takes the forms of the
type and nothing else. -/

namespace Vds

open BinarySerializer BinaryDeserializer StateError

/-- A type with its `operator <<` and `operator >>`. -/
structure Serializable (α : Type) where
  put : α → Expected ConstDataBuffer
  get : BinaryDeserializer α
  /-- The value is one of the type: sizes fit `size_t`, buffers have at most 2^30 bytes, keys are
  in their order, and the crypto library has the key. -/
  holds : α → Prop
  /-- Every JSON value inside is a readable object or array. -/
  readable : α → Prop
  /-- The bytes are a form of the value that the format allows. -/
  form : ConstDataBuffer → α → Prop

/-- What a reader makes of bytes with a rest: a value and the rest, or an error. -/
def Gives {α : Type} (r : EStateM.Result Error ConstDataBuffer α) (rest : ConstDataBuffer) :
    Option α → Prop
  | some y => r = .ok y rest
  | none => ∃ e s, r = .error e s

namespace Serializable

variable {α β : Type}

/-- The value comes back from its bytes, whatever follows them, and they are all it takes. -/
def RoundTrips (c : Serializable α) (x : α) : Prop :=
  ∃ bytes, c.put x = .ok bytes ∧ ∀ rest, c.get (bytes ++ rest) = .ok x rest

/-- The bytes of a value, whatever follows them, give one outcome: a value that `R` relates to it
or an error; and it is the value itself if and only if that is readable. -/
def LawWith (R : α → α → Prop) (c : Serializable α) : Prop :=
  ∀ x, c.holds x → ((∃ e, c.put x = .error e) ∧ ¬c.readable x) ∨
    ∃ bytes o, c.put x = .ok bytes ∧ (∀ rest, Gives (c.get (bytes ++ rest)) rest o) ∧
      (o = some x ↔ c.readable x) ∧ ∀ y, o = some y → R x y

abbrev Law (c : Serializable α) : Prop := c.LawWith fun _ _ => True

theorem LawWith.law {R : α → α → Prop} {c : Serializable α} (h : c.LawWith R) : c.Law := by
  intro x hx
  obtain hfail | ⟨bytes, o, hput, hget, hself, -⟩ := h x hx
  · exact .inl hfail
  · exact .inr ⟨bytes, o, hput, hget, hself, fun _ _ => trivial⟩

theorem Law.roundTrips_iff {c : Serializable α} (h : c.Law) {x : α} (hx : c.holds x) :
    c.RoundTrips x ↔ c.readable x := by
  obtain ⟨⟨e, he⟩, hr⟩ | ⟨bytes, o, hput, hget, hself, -⟩ := h x hx
  · constructor
    · rintro ⟨bytes, hput, -⟩
      cases he.symm.trans hput
    · intro hread
      exact absurd hread hr
  · rw [← hself]
    constructor
    · rintro ⟨bytes', hput', hback⟩
      cases hput.symm.trans hput'
      have hnil := hget []
      rw [hback []] at hnil
      cases o with
      | none =>
        obtain ⟨e, s, he⟩ := hnil
        cases he
      | some y =>
        cases hnil
        rfl
    · rintro rfl
      exact ⟨bytes, hput, hget⟩

/-! ### Plain types -/

/-- A type that is always written and has no JSON in it. -/
def plain (put : α → ConstDataBuffer) (get : BinaryDeserializer α) (holds : α → Prop)
    (form : ConstDataBuffer → α → Prop) : Serializable α where
  put x := .ok (put x)
  get := get
  holds := holds
  readable _ := True
  form := form

theorem plain_law {put : α → ConstDataBuffer} {get : BinaryDeserializer α} {holds : α → Prop}
    {form : ConstDataBuffer → α → Prop}
    (h : ∀ x, holds x → ∀ rest, get (put x ++ rest) = .ok x rest) :
    (plain put get holds form).Law := by
  intro x hx
  exact .inr ⟨put x, some x, rfl, h x hx, ⟨fun _ => trivial, fun _ => rfl⟩, fun _ _ => trivial⟩

def bool : Serializable Bool :=
  plain putBool getBool (fun _ => True) fun d x => ∃ b, d = [b] ∧ x = (b ≠ 0 : Bool)

def uint8 : Serializable UInt8 := plain putUInt8 getUInt8 (fun _ => True) fun d x => d = [x]

def uint16 : Serializable UInt16 :=
  plain putUInt16 getUInt16 (fun _ => True) fun d x => d = putUInt16 x

def uint32 : Serializable UInt32 :=
  plain putUInt32 getUInt32 (fun _ => True) fun d x => d = putUInt32 x

def uint64 : Serializable UInt64 :=
  plain putUInt64 getUInt64 (fun _ => True) fun d x => d = putUInt64 x

/-- A number in any of its forms: one byte below 0x80, or a byte that counts the bytes of what it
is above 0x80, of which the last eight matter. -/
def NumberForm (d : ConstDataBuffer) (x : UInt64) : Prop :=
  (∃ b : UInt8, b < 0x80 ∧ d = [b] ∧ x = b.toUInt64) ∨
    ∃ (b : UInt8) (data : ConstDataBuffer), ¬b < 0x80 ∧ data.length = (b &&& 0x7F).toNat ∧
      d = b :: data ∧ x = bigEndian data + 0x80

/-- `write_number` and `read_number`. -/
def number : Serializable UInt64 := plain writeNumber readNumber (fun _ => True) NumberForm

/-- A size, then as many bytes. -/
def SizedForm (d x : ConstDataBuffer) : Prop :=
  ∃ len n, NumberForm len n ∧ x.length = n.toNat ∧ d = len ++ x

def string : Serializable StdString :=
  plain putString getString (fun s => s.length < 2 ^ 64) SizedForm

def buffer : Serializable ConstDataBuffer :=
  plain putData getData (fun d => d.length ≤ maxData) fun d x => x.length ≤ maxData ∧ SizedForm d x

theorem bool_law : bool.Law := by
  refine plain_law fun x _ rest => ?_
  have h8 : getUInt8 (putBool x ++ rest) = .ok (if x then 0xFF else 0) rest :=
    getUInt8_eq_ok.mpr rfl
  unfold getBool
  rw [bind_of_ok h8]
  cases x <;> rfl

theorem uint8_law : uint8.Law := plain_law fun _ _ _ => getUInt8_eq_ok.mpr rfl

theorem bigEndian_putUInt16 (x : UInt16) : (bigEndian (putUInt16 x)).toUInt16 = x := by
  refine UInt16.toNat_inj.mp ?_
  have hl : (putUInt16 x).length ≤ 8 := Nat.le_add_right 2 6
  rw [UInt64.toNat_toUInt16, bigEndian_toNat hl]
  have hx := x.toNat_lt
  simp only [putUInt16, List.reverse_cons, List.reverse_nil, List.nil_append,
    List.cons_append, List.map_cons, List.map_nil, Nat.ofDigits_cons, Nat.ofDigits_nil,
    UInt16.toNat_toUInt8, UInt16.toNat_shiftRight, Nat.shiftRight_eq_div_pow,
    UInt16.reduceToNat, Nat.reduceMod, Nat.reducePow]
  omega

theorem uint16_law : uint16.Law := by
  refine plain_law fun x _ rest => ?_
  have hpop : popData 2 (putUInt16 x ++ rest) = .ok (putUInt16 x) rest :=
    popData_append (putUInt16 x) rest
  unfold getUInt16
  rw [bind_of_ok hpop, bigEndian_putUInt16]
  rfl

theorem uint32_law : uint32.Law := plain_law fun _ _ _ => getUInt32_eq_ok.mpr rfl

theorem uint64_law : uint64.Law := plain_law fun _ _ _ => getUInt64_eq_ok.mpr rfl

theorem number_law : number.Law := plain_law fun x _ rest => readNumber_writeNumber x rest

theorem getString_putString {s : StdString} (h : s.length < 2 ^ 64) (rest : ConstDataBuffer) :
    getString (putString s ++ rest) = .ok s rest := by
  unfold getString putString putData
  have hn : (UInt64.ofNat s.length).toNat = s.length := UInt64.toNat_ofNat_of_lt' h
  rw [List.append_assoc, bind_of_ok (readNumber_writeNumber _ _), hn]
  exact popData_append s rest

theorem string_law : string.Law := plain_law fun _ hx rest => getString_putString hx rest

theorem getData_putData {d : ConstDataBuffer} (h : d.length ≤ maxData) (rest : ConstDataBuffer) :
    getData (putData d ++ rest) = .ok d rest :=
  getData_of_getDataShortest (getDataShortest_eq_ok.mpr ⟨h, rfl⟩)

theorem buffer_law : buffer.Law := plain_law fun _ hx rest => getData_putData hx rest

/-! ### Keys -/

/-- `operator <<` and `operator >>` of a shared key: its DER form. The library takes a DER form
that it has made. -/
def key (der : α → ConstDataBuffer) (parse : ConstDataBuffer → Expected α) : Serializable α where
  put k := .ok (putData (der k))
  get := do
    let keyData ← getData
    match parse keyData with
    | .ok k => return k
    | .error e => throw e
  holds k := (der k).length ≤ maxData ∧ parse (der k) = .ok k
  readable _ := True
  form d k := ∃ keyData, buffer.form d keyData ∧ parse keyData = .ok k

theorem key_law (der : α → ConstDataBuffer) (parse : ConstDataBuffer → Expected α) :
    (key der parse).Law := by
  refine plain_law fun k hk rest => ?_
  rw [bind_of_ok (getData_putData hk.1 rest), hk.2]
  rfl

/-! ### JSON -/

/-- The error of a JSON function among the errors of the reader. -/
def jsonError : JsonError → Error
  | .runtimeError what => .runtimeError what
  | .parseError _ _ _ message _ => .runtimeError message
  | .undefined => .runtimeError ""

/-- The name of the stream that `operator >>` gives the parser, `"deserialize"`. -/
def deserializeName : StdString := "deserialize".toList.map ascii

/-- A shared `json_value`: its text as a string. -/
def json : Serializable JsonValue where
  put v := match v.str with
    | .ok text => .ok (putString text)
    | .error e => .error (jsonError e)
  get := do
    let valueStr ← getString
    match JsonParser.parse deserializeName valueStr with
    | .ok v => return v
    | .error e => throw (jsonError e)
  holds v := ∀ text, v.str = .ok text → text.length < 2 ^ 64
  readable v := v.isContainer ∧ v.readable
  form d v := ∃ text, SizedForm d text ∧ JsonParser.parse deserializeName text = .ok v

theorem json_law : json.Law := by
  intro v hv
  cases hkind : v.isContainer with
  | false =>
    obtain ⟨e, he⟩ := JsonValue.str_of_not_isContainer hkind
    refine .inl ⟨⟨jsonError e, ?_⟩, fun hread => ?_⟩
    · simp only [json, he]
    · exact absurd (hkind.symm.trans hread.1) (by decide)
  | true =>
    cases htext : v.str with
    | error e =>
      refine .inl ⟨⟨jsonError e, ?_⟩, fun hread => ?_⟩
      · simp only [json, htext]
      · obtain ⟨text, hok⟩ := JsonValue.text_of_reread v ((JsonValue.reread_eq_self v).2 hread.2)
        rw [JsonValue.str_eq hkind, hok] at htext
        cases htext
    | ok text =>
      have hv' := (JsonValue.str_eq hkind).symm.trans htext
      have hne : ∀ piece ∈ [text], piece ≠ [] := by
        intro piece hpiece
        rw [List.mem_singleton.1 hpiece]
        exact JsonValue.text_ne_nil hkind hv'
      have hself : v.reread = some v ↔ json.readable v := by
        rw [JsonValue.reread_eq_self]
        exact ⟨fun h => ⟨hkind, h⟩, fun h => h.2⟩
      refine .inr ⟨putString text, v.reread, ?_, fun rest => ?_, hself, fun _ _ => trivial⟩
      · simp only [json, htext]
      · have hstring : json.get (putString text ++ rest) =
            (match JsonParser.parse deserializeName text with
              | .ok v => return v
              | .error e => throw (jsonError e) : BinaryDeserializer JsonValue) rest :=
          bind_of_ok (getString_putString (hv text htext) rest)
        rw [hstring]
        obtain ⟨v', hsome, hparse⟩ | ⟨hnone, e, he⟩ := JsonParser.parsePieces_text hkind hv'
          deserializeName hne (List.flatten_singleton ..)
        · rw [JsonParser.parse, hparse, hsome]
          rfl
        · rw [JsonParser.parse, he, hnone]
          exact ⟨jsonError e, rest, rfl⟩

/-! ### Templates -/

/-- One field after the other. -/
def both (a : Serializable α) (b : Serializable β) : Serializable (α × β) where
  put x := do
    let first ← a.put x.1
    let second ← b.put x.2
    return first ++ second
  get := do
    let first ← a.get
    let second ← b.get
    return (first, second)
  holds x := a.holds x.1 ∧ b.holds x.2
  readable x := a.readable x.1 ∧ b.readable x.2
  form d x := ∃ d₁ d₂, d = d₁ ++ d₂ ∧ a.form d₁ x.1 ∧ b.form d₂ x.2

/-- A structure with these fields. -/
def as (c : Serializable α) (fields : β → α) (make : α → β) : Serializable β where
  put x := c.put (fields x)
  get := make <$> c.get
  holds x := c.holds (fields x)
  readable x := c.readable (fields x)
  form d x := ∃ y, c.form d y ∧ x = make y

/-- Forms of the items, one behind the other. -/
inductive ManyForm (form : ConstDataBuffer → α → Prop) : ConstDataBuffer → List α → Prop
  | nil : ManyForm form [] []
  | cons {d rest : ConstDataBuffer} {x : α} {xs : List α} :
      form d x → ManyForm form rest xs → ManyForm form (d ++ rest) (x :: xs)

/-- A number of items, then forms of as many items. -/
def CountedForm (form : ConstDataBuffer → α → Prop) (d : ConstDataBuffer) (xs : List α) : Prop :=
  ∃ count n body, NumberForm count n ∧ xs.length = n.toNat ∧ ManyForm form body xs ∧
    d = count ++ body

def putMany (put : α → Expected ConstDataBuffer) : List α → Expected ConstDataBuffer
  | [] => .ok []
  | x :: xs => do
    let bytes ← put x
    let rest ← putMany put xs
    return bytes ++ rest

/-- The number of items, then the items. -/
def putCounted (put : α → Expected ConstDataBuffer) (items : List α) : Expected ConstDataBuffer := do
  let bytes ← putMany put items
  return writeNumber (UInt64.ofNat items.length) ++ bytes

/-- `std::list` and `std::vector`. -/
def list (c : Serializable α) : Serializable (List α) where
  put := putCounted c.put
  get := getVector c.get
  holds xs := xs.length < 2 ^ 64 ∧ ∀ x ∈ xs, c.holds x
  readable xs := ∀ x ∈ xs, c.readable x
  form := CountedForm c.form

/-- `std::set`, with the order of its items. -/
def set [DecidableEq α] (less : α → α → Bool) (c : Serializable α) : Serializable (List α) where
  put := putCounted c.put
  get := do
    let items ← getVector c.get
    return items.foldl (fun s item => SortedMap.emplace less item s) []
  holds xs := xs.length < 2 ^ 64 ∧ (∀ x ∈ xs, c.holds x) ∧ SortedMap.Ascending less xs
  readable xs := ∀ x ∈ xs, c.readable x
  form d xs := ∃ items, CountedForm c.form d items ∧
    xs = items.foldl (fun s item => SortedMap.emplace less item s) []

/-- `std::map`, with the order of its keys. -/
def map [DecidableEq α] (less : α → α → Bool) (a : Serializable α) (b : Serializable β) :
    Serializable (List (α × β)) where
  put := putCounted (a.both b).put
  get := do
    let entries ← getVector (a.both b).get
    return entries.foldl (fun m e => SortedMap.emplaceEntry less e.1 e.2 m) []
  holds m := m.length < 2 ^ 64 ∧ (∀ e ∈ m, (a.both b).holds e) ∧
    SortedMap.Ascending less (SortedMap.keys m)
  readable m := ∀ e ∈ m, (a.both b).readable e
  form d m := ∃ entries, CountedForm (a.both b).form d entries ∧
    m = entries.foldl (fun m e => SortedMap.emplaceEntry less e.1 e.2 m) []

/-- The outcomes of two readers one behind the other. -/
theorem gives_bind {m : BinaryDeserializer α} {f : α → BinaryDeserializer β}
    {bytes bytes' : ConstDataBuffer} {o : Option α} {g : α → Option β}
    (h : ∀ rest, Gives (m (bytes ++ rest)) rest o)
    (h' : ∀ a, o = some a → ∀ rest, Gives (f a (bytes' ++ rest)) rest (g a))
    (rest : ConstDataBuffer) :
    Gives ((m >>= f) ((bytes ++ bytes') ++ rest)) rest (o.bind g) := by
  rw [List.append_assoc]
  have hm := h (bytes' ++ rest)
  cases o with
  | none =>
    obtain ⟨e, s, he⟩ := hm
    exact ⟨e, s, bind_of_error he⟩
  | some a =>
    rw [Option.bind_some, bind_of_ok hm]
    exact h' a rfl rest

theorem gives_map {m : BinaryDeserializer α} {f : α → β} {bytes : ConstDataBuffer}
    {o : Option α} (h : ∀ rest, Gives (m (bytes ++ rest)) rest o) (rest : ConstDataBuffer) :
    Gives ((f <$> m) (bytes ++ rest)) rest (o.map f) := by
  have hm := h rest
  change Gives ((m >>= fun a => pure (f a)) _) _ _
  cases o with
  | none =>
    obtain ⟨e, s, he⟩ := hm
    exact ⟨e, s, bind_of_error he⟩
  | some a => exact (bind_of_ok hm).trans rfl

theorem LawWith.both {R : α → α → Prop} {S : β → β → Prop} {a : Serializable α}
    {b : Serializable β} (ha : a.LawWith R) (hb : b.LawWith S) :
    (a.both b).LawWith fun x y => R x.1 y.1 ∧ S x.2 y.2 := by
  rintro ⟨x₁, x₂⟩ ⟨hx₁, hx₂⟩
  obtain ⟨⟨e, he⟩, hr⟩ | ⟨bytes, o, hput, hget, hself, hR⟩ := ha x₁ hx₁
  · refine .inl ⟨⟨e, ?_⟩, fun hread => hr hread.1⟩
    simp only [Serializable.both, he]
    rfl
  obtain ⟨⟨e, he⟩, hr⟩ | ⟨bytes', o', hput', hget', hself', hS⟩ := hb x₂ hx₂
  · refine .inl ⟨⟨e, ?_⟩, fun hread => hr hread.2⟩
    simp only [Serializable.both, hput, he]
    rfl
  · refine .inr ⟨bytes ++ bytes', o.bind fun y₁ => o'.map fun y₂ => (y₁, y₂), ?_, ?_, ?_, ?_⟩
    · simp only [Serializable.both, hput, hput']
      rfl
    · exact gives_bind hget fun y₁ _ => gives_map hget'
    · change _ ↔ a.readable x₁ ∧ b.readable x₂
      rw [← hself, ← hself']
      cases o <;> cases o' <;> simp
    · rintro ⟨y₁, y₂⟩ hy
      simp only [Option.bind_eq_some_iff, Option.map_eq_some_iff, Prod.mk.injEq] at hy
      obtain ⟨z₁, rfl, z₂, rfl, rfl, rfl⟩ := hy
      exact ⟨hR z₁ rfl, hS z₂ rfl⟩

theorem Law.both {a : Serializable α} {b : Serializable β} (ha : a.Law) (hb : b.Law) :
    (a.both b).Law := (LawWith.both ha hb).law

theorem Law.as {c : Serializable α} (h : c.Law) {fields : β → α} {make : α → β}
    (hmake : ∀ x, make (fields x) = x) (hfields : ∀ y, fields (make y) = y) :
    (c.as fields make).Law := by
  intro x hx
  obtain hfail | ⟨bytes, o, hput, hget, hself, -⟩ := h (fields x) hx
  · exact .inl hfail
  · refine .inr ⟨bytes, o.map make, hput, gives_map hget, ?_, fun _ _ => trivial⟩
    change _ ↔ c.readable (fields x)
    rw [← hself]
    cases o with
    | none => simp
    | some y =>
      rw [Option.map_some, Option.some.injEq, Option.some.injEq]
      constructor
      · rintro rfl
        exact (hfields y).symm
      · rintro rfl
        exact hmake x

/-! ### Containers -/

/-- The items one behind the other. -/
theorem LawWith.many {R : α → α → Prop} {c : Serializable α} (h : c.LawWith R) {xs : List α}
    (hxs : ∀ x ∈ xs, c.holds x) :
    ((∃ e, putMany c.put xs = .error e) ∧ ¬∀ x ∈ xs, c.readable x) ∨
      ∃ bytes o, putMany c.put xs = .ok bytes ∧
        (∀ rest, Gives (getMany c.get xs.length (bytes ++ rest)) rest o) ∧
        (o = some xs ↔ ∀ x ∈ xs, c.readable x) ∧ ∀ ys, o = some ys → List.Forall₂ R xs ys := by
  induction xs with
  | nil =>
    refine .inr ⟨[], some [], rfl, fun rest => rfl, by simp, ?_⟩
    rintro ys ⟨⟩
    exact List.Forall₂.nil
  | cons x xs ih =>
    have hread : (∀ y ∈ x :: xs, c.readable y) ↔ c.readable x ∧ ∀ y ∈ xs, c.readable y :=
      List.forall_mem_cons
    obtain ⟨⟨e, he⟩, hr⟩ | ⟨bytes, o, hput, hget, hself, hR⟩ := h x (hxs x List.mem_cons_self)
    · refine .inl ⟨⟨e, ?_⟩, fun hall => hr (hread.1 hall).1⟩
      rw [putMany, he]
      rfl
    obtain ⟨⟨e, he⟩, hr⟩ | ⟨bytes', o', hput', hget', hself', hRs⟩ :=
      ih fun y hy => hxs y (List.mem_cons_of_mem x hy)
    · refine .inl ⟨⟨e, ?_⟩, fun hall => hr (hread.1 hall).2⟩
      rw [putMany, hput, he]
      rfl
    · refine .inr ⟨bytes ++ bytes', o.bind fun y => o'.map (y :: ·), ?_, ?_, ?_, ?_⟩
      · rw [putMany, hput, hput']
        rfl
      · exact gives_bind hget fun y _ => gives_map hget'
      · rw [hread, ← hself, ← hself']
        cases o <;> cases o' <;> simp
      · intro ys hys
        simp only [Option.bind_eq_some_iff, Option.map_eq_some_iff] at hys
        obtain ⟨y, rfl, ys', rfl, rfl⟩ := hys
        exact List.Forall₂.cons (hR y rfl) (hRs ys' rfl)

/-- The counted items, which the reader then makes a container of. -/
theorem LawWith.counted {R : α → α → Prop} {c : Serializable α} (h : c.LawWith R) {xs : List α}
    (hn : xs.length < 2 ^ 64) (hxs : ∀ x ∈ xs, c.holds x) :
    ((∃ e, putCounted c.put xs = .error e) ∧ ¬∀ x ∈ xs, c.readable x) ∨
      ∃ bytes o, putCounted c.put xs = .ok bytes ∧
        (∀ rest, Gives (getVector c.get (bytes ++ rest)) rest o) ∧
        (o = some xs ↔ ∀ x ∈ xs, c.readable x) ∧ ∀ ys, o = some ys → List.Forall₂ R xs ys := by
  obtain ⟨⟨e, he⟩, hr⟩ | ⟨bytes, o, hput, hget, hself, hR⟩ := h.many hxs
  · refine .inl ⟨⟨e, ?_⟩, hr⟩
    rw [putCounted, he]
    rfl
  · refine .inr ⟨writeNumber (UInt64.ofNat xs.length) ++ bytes, o, ?_, fun rest => ?_, hself, hR⟩
    · rw [putCounted, hput]
      rfl
    · have hcount : (UInt64.ofNat xs.length).toNat = xs.length := UInt64.toNat_ofNat_of_lt' hn
      unfold getVector
      rw [List.append_assoc, bind_of_ok (readNumber_writeNumber _ _), hcount]
      exact hget rest

theorem Law.list {c : Serializable α} (h : c.Law) : c.list.Law := by
  rintro xs ⟨hn, hxs⟩
  obtain hfail | ⟨bytes, o, hput, hget, hself, -⟩ := LawWith.counted h hn hxs
  · exact .inl hfail
  · exact .inr ⟨bytes, o, hput, hget, hself, fun _ _ => trivial⟩

/-- A type without JSON comes back as it was. -/
theorem Law.exact {c : Serializable α} (h : c.Law) (hr : ∀ x, c.readable x) :
    c.LawWith Eq := by
  intro x hx
  obtain ⟨-, hnot⟩ | ⟨bytes, o, hput, hget, hself, -⟩ := h x hx
  · exact absurd (hr x) hnot
  · refine .inr ⟨bytes, o, hput, hget, hself, fun y hy => ?_⟩
    have hx := hy.symm.trans (hself.2 (hr x))
    cases hx
    rfl

theorem keys_of_forall₂ {m m' : List (α × β)}
    (h : List.Forall₂ (fun e e' => e.1 = e'.1 ∧ True) m m') :
    SortedMap.keys m = SortedMap.keys m' := by
  induction h with
  | nil => rfl
  | cons he _ ih => rw [SortedMap.keys_cons, SortedMap.keys_cons, he.1, ih]

section Order

variable [DecidableEq α] {less : α → α → Bool} {O : Type} [LinearOrder O] {order : α → O}
  (hless : ∀ x y, less x y = true ↔ order x < order y)
include hless

theorem Law.set {c : Serializable α} (h : c.LawWith Eq) : (c.set less).Law := by
  rintro xs ⟨hn, hxs, hasc⟩
  obtain hfail | ⟨bytes, o, hput, hget, hself, hR⟩ := h.counted hn hxs
  · exact .inl hfail
  · refine .inr ⟨bytes, o, hput, fun rest => ?_, hself, fun _ _ => trivial⟩
    have hset := hget rest
    cases o with
    | none =>
      obtain ⟨e, s, he⟩ := hset
      exact ⟨e, s, bind_of_error he⟩
    | some ys =>
      obtain rfl := List.forall₂_eq_eq_eq ▸ hR ys rfl
      refine (bind_of_ok hset).trans ?_
      rw [@SortedMap.emplaceAll_ascending _ _ less _ _ order hless [] xs hasc]
      rfl

theorem Law.map {a : Serializable α} {b : Serializable β} (ha : a.LawWith Eq) (hb : b.Law) :
    (a.map less b).Law := by
  rintro m ⟨hn, hm, hasc⟩
  obtain hfail | ⟨bytes, o, hput, hget, hself, hR⟩ := (ha.both hb).counted hn hm
  · exact .inl hfail
  · refine .inr ⟨bytes, o, hput, fun rest => ?_, hself, fun _ _ => trivial⟩
    have hmap := hget rest
    cases o with
    | none =>
      obtain ⟨e, s, he⟩ := hmap
      exact ⟨e, s, bind_of_error he⟩
    | some ys =>
      have hkeys : SortedMap.keys m = SortedMap.keys ys := keys_of_forall₂ (hR ys rfl)
      refine (bind_of_ok hmap).trans ?_
      rw [@SortedMap.emplaceEntries_ascending _ _ _ less _ _ order hless [] ys (hkeys ▸ hasc)]
      rfl

end Order

/-! ### What a reader takes -/

/-- The reader takes a form of a value from the front, and nothing else. -/
def Takes (c : Serializable α) : Prop :=
  ∀ d x rest, c.get d = .ok x rest ↔ ∃ used, d = used ++ rest ∧ c.form used x

theorem bool_takes : bool.Takes := by
  intro d x rest
  change getBool d = _ ↔ _
  unfold getBool
  rw [bind_eq_ok]
  constructor
  · rintro ⟨b, d₁, hb, h⟩
    rw [getUInt8_eq_ok] at hb
    cases h
    exact ⟨[b], hb, b, rfl, rfl⟩
  · rintro ⟨used, rfl, b, rfl, rfl⟩
    exact ⟨b, rest, getUInt8_eq_ok.mpr rfl, rfl⟩

theorem uint8_takes : uint8.Takes := by
  intro d x rest
  refine getUInt8_eq_ok.trans ⟨fun h => ⟨[x], h, rfl⟩, ?_⟩
  rintro ⟨used, rfl, rfl⟩
  rfl

theorem two_bytes (a b : UInt8) : [a, b] = putUInt16 (bigEndian [a, b]).toUInt16 := by
  have hv : (bigEndian [a, b]).toUInt16.toNat = a.toNat * 256 + b.toNat := by
    have hl : ([a, b] : ConstDataBuffer).length ≤ 8 := Nat.le_add_right 2 6
    rw [UInt64.toNat_toUInt16, bigEndian_toNat hl]
    have ha := a.toNat_lt
    have hb := b.toNat_lt
    simp only [List.reverse_cons, List.reverse_nil, List.nil_append, List.cons_append,
      List.map_cons, List.map_nil, Nat.ofDigits_cons, Nat.ofDigits_nil]
    push_cast
    omega
  have ha := a.toNat_lt
  have hb := b.toNat_lt
  rw [putUInt16, List.cons.injEq, List.cons.injEq, ← UInt8.toNat_inj, ← UInt8.toNat_inj,
    UInt16.toNat_toUInt8, UInt16.toNat_toUInt8, UInt16.toNat_shiftRight, hv,
    Nat.shiftRight_eq_div_pow]
  change a.toNat = (a.toNat * 256 + b.toNat) / 256 % 256 ∧ _
  refine ⟨?_, ?_, rfl⟩ <;> omega

theorem uint16_takes : uint16.Takes := by
  intro d x rest
  change getUInt16 d = _ ↔ _
  unfold getUInt16
  rw [bind_eq_ok]
  constructor
  · rintro ⟨data, d₁, hpop, h⟩
    obtain ⟨hl, rfl⟩ := popData_eq_ok.mp hpop
    cases h
    refine ⟨data, rfl, ?_⟩
    match data, hl with
    | [a, b], _ => exact two_bytes a b
  · rintro ⟨used, rfl, rfl⟩
    exact ⟨putUInt16 x, rest, popData_append (putUInt16 x) rest, by rw [bigEndian_putUInt16]; rfl⟩

theorem uint32_takes : uint32.Takes := by
  intro d x rest
  refine getUInt32_eq_ok.trans ⟨fun h => ⟨putUInt32 x, h, rfl⟩, ?_⟩
  rintro ⟨used, rfl, rfl⟩
  rfl

theorem uint64_takes : uint64.Takes := by
  intro d x rest
  refine getUInt64_eq_ok.trans ⟨fun h => ⟨putUInt64 x, h, rfl⟩, ?_⟩
  rintro ⟨used, rfl, rfl⟩
  rfl

theorem readNumber_eq_ok {d rest : ConstDataBuffer} {x : UInt64} :
    readNumber d = .ok x rest ↔ ∃ used, d = used ++ rest ∧ NumberForm used x := by
  unfold readNumber
  rw [bind_eq_ok]
  constructor
  · rintro ⟨b, d₁, hb, h⟩
    rw [getUInt8_eq_ok] at hb
    subst hb
    split_ifs at h with hsmall
    · cases h
      exact ⟨[b], rfl, .inl ⟨b, hsmall, rfl, rfl⟩⟩
    · obtain ⟨data, d₂, hpop, hdone⟩ := bind_eq_ok.mp h
      obtain ⟨hl, rfl⟩ := popData_eq_ok.mp hpop
      cases hdone
      exact ⟨b :: data, rfl, .inr ⟨b, data, hsmall, hl, rfl, rfl⟩⟩
  · rintro ⟨used, rfl, ⟨b, hsmall, rfl, rfl⟩ | ⟨b, data, hbig, hl, rfl, rfl⟩⟩
    · refine ⟨b, rest, getUInt8_eq_ok.mpr rfl, ?_⟩
      rw [if_pos hsmall]
      rfl
    · refine ⟨b, data ++ rest, getUInt8_eq_ok.mpr rfl, ?_⟩
      rw [if_neg hbig, bind_of_ok (popData_eq_ok.mpr ⟨hl, rfl⟩)]
      rfl

theorem number_takes : number.Takes := fun _ _ _ => readNumber_eq_ok

theorem getString_eq_ok {d x rest : ConstDataBuffer} :
    getString d = .ok x rest ↔ ∃ used, d = used ++ rest ∧ SizedForm used x := by
  unfold getString
  rw [bind_eq_ok]
  constructor
  · rintro ⟨n, d₁, hn, h⟩
    obtain ⟨len, rfl, hlen⟩ := readNumber_eq_ok.mp hn
    obtain ⟨hl, rfl⟩ := popData_eq_ok.mp h
    exact ⟨len ++ x, (List.append_assoc ..).symm, len, n, hlen, hl, rfl⟩
  · rintro ⟨used, rfl, len, n, hlen, hl, rfl⟩
    exact ⟨n, x ++ rest, readNumber_eq_ok.mpr ⟨len, List.append_assoc .., hlen⟩,
      popData_eq_ok.mpr ⟨hl, rfl⟩⟩

theorem string_takes : string.Takes := fun _ _ _ => getString_eq_ok

theorem getData_eq_ok {d x rest : ConstDataBuffer} :
    getData d = .ok x rest ↔ ∃ used, d = used ++ rest ∧ x.length ≤ maxData ∧ SizedForm used x := by
  have hbound : ∀ n : UInt64, 1024 * 1024 * 1024 < n ↔ maxData < n.toNat := fun n =>
    UInt64.lt_iff_toNat_lt
  unfold getData
  rw [bind_eq_ok]
  constructor
  · rintro ⟨n, d₁, hn, h⟩
    obtain ⟨len, rfl, hlen⟩ := readNumber_eq_ok.mp hn
    split_ifs at h with hbig
    · cases h
    · obtain ⟨hl, rfl⟩ := popData_eq_ok.mp h
      rw [hbound, not_lt, ← hl] at hbig
      exact ⟨len ++ x, (List.append_assoc ..).symm, hbig, len, n, hlen, hl, rfl⟩
  · rintro ⟨used, rfl, hmax, len, n, hlen, hl, rfl⟩
    refine ⟨n, x ++ rest, readNumber_eq_ok.mpr ⟨len, List.append_assoc .., hlen⟩, ?_⟩
    rw [if_neg]
    · exact popData_eq_ok.mpr ⟨hl, rfl⟩
    · rw [hbound, not_lt, ← hl]
      exact hmax

theorem buffer_takes : buffer.Takes := fun _ _ _ => getData_eq_ok

/-- A reader that makes a value of what another reader takes, or refuses it. -/
theorem takes_of_parse {m : BinaryDeserializer α} {form : ConstDataBuffer → α → Prop}
    {parse : α → Expected β}
    (h : ∀ d x rest, m d = .ok x rest ↔ ∃ used, d = used ++ rest ∧ form used x)
    (d : ConstDataBuffer) (y : β) (rest : ConstDataBuffer) :
    (do
      let x ← m
      match parse x with
      | .ok y => return y
      | .error e => throw e : BinaryDeserializer β) d = .ok y rest ↔
        ∃ used, d = used ++ rest ∧ ∃ x, form used x ∧ parse x = .ok y := by
  rw [bind_eq_ok]
  constructor
  · rintro ⟨x, d₁, hx, hy⟩
    obtain ⟨used, rfl, hform⟩ := (h _ _ _).mp hx
    cases hparse : parse x with
    | error e =>
      rw [hparse] at hy
      cases hy
    | ok y' =>
      rw [hparse] at hy
      cases hy
      exact ⟨used, rfl, x, hform, hparse⟩
  · rintro ⟨used, rfl, x, hform, hparse⟩
    refine ⟨x, rest, (h _ _ _).mpr ⟨used, rfl, hform⟩, ?_⟩
    rw [hparse]
    rfl

theorem key_takes (der : α → ConstDataBuffer) (parse : ConstDataBuffer → Expected α) :
    (key der parse).Takes := fun d k rest => takes_of_parse (fun _ _ _ => getData_eq_ok) d k rest

theorem Takes.both {a : Serializable α} {b : Serializable β} (ha : a.Takes) (hb : b.Takes) :
    (a.both b).Takes := by
  rintro d ⟨x, y⟩ rest
  change (do let first ← a.get; let second ← b.get; return (first, second)) d = _ ↔ _
  rw [bind_eq_ok]
  constructor
  · rintro ⟨x', d₁, hx, h⟩
    obtain ⟨used, rfl, hform⟩ := (ha _ _ _).mp hx
    obtain ⟨y', d₂, hy, hdone⟩ := bind_eq_ok.mp h
    obtain ⟨used', rfl, hform'⟩ := (hb _ _ _).mp hy
    cases hdone
    exact ⟨used ++ used', (List.append_assoc ..).symm, used, used', rfl, hform, hform'⟩
  · rintro ⟨used, rfl, d₁, d₂, rfl, hx, hy⟩
    refine ⟨x, d₂ ++ rest, (ha _ _ _).mpr ⟨d₁, List.append_assoc .., hx⟩, ?_⟩
    rw [bind_of_ok ((hb _ _ _).mpr ⟨d₂, rfl, hy⟩)]
    rfl

theorem map_eq_ok {m : BinaryDeserializer α} {f : α → β} {d rest : ConstDataBuffer} {y : β} :
    (f <$> m) d = .ok y rest ↔ ∃ x, m d = .ok x rest ∧ y = f x := by
  change (m >>= fun x => pure (f x)) d = _ ↔ _
  rw [bind_eq_ok]
  constructor
  · rintro ⟨x, d₁, hx, h⟩
    cases h
    exact ⟨x, hx, rfl⟩
  · rintro ⟨x, hx, rfl⟩
    exact ⟨x, rest, hx, rfl⟩

theorem Takes.as {c : Serializable α} (h : c.Takes) (fields : β → α) (make : α → β) :
    (c.as fields make).Takes := by
  intro d x rest
  refine map_eq_ok.trans ?_
  constructor
  · rintro ⟨y, hy, rfl⟩
    obtain ⟨used, rfl, hform⟩ := (h _ _ _).mp hy
    exact ⟨used, rfl, y, hform, rfl⟩
  · rintro ⟨used, rfl, y, hform, rfl⟩
    exact ⟨y, (h _ _ _).mpr ⟨used, rfl, hform⟩, rfl⟩

theorem Takes.many {c : Serializable α} (h : c.Takes) {n : ℕ} {d rest : ConstDataBuffer}
    {xs : List α} : getMany c.get n d = .ok xs rest ↔
      ∃ used, d = used ++ rest ∧ xs.length = n ∧ ManyForm c.form used xs := by
  induction n generalizing d rest xs with
  | zero =>
    constructor
    · intro hget
      cases hget
      exact ⟨[], rfl, rfl, .nil⟩
    · rintro ⟨used, rfl, hl, hform⟩
      obtain rfl := List.eq_nil_of_length_eq_zero hl
      cases hform
      rfl
  | succ n ih =>
    unfold getMany
    rw [bind_eq_ok]
    constructor
    · rintro ⟨x, d₁, hx, hrest⟩
      obtain ⟨used, rfl, hform⟩ := (h _ _ _).mp hx
      obtain ⟨xs', d₂, hxs, hdone⟩ := bind_eq_ok.mp hrest
      obtain ⟨used', rfl, hl, hform'⟩ := ih.mp hxs
      cases hdone
      exact ⟨used ++ used', (List.append_assoc ..).symm, congrArg (· + 1) hl, .cons hform hform'⟩
    · rintro ⟨used, rfl, hl, hform⟩
      cases hform with
      | nil => cases hl
      | @cons d₁ d₂ x xs hx hxs =>
        refine ⟨x, d₂ ++ rest, (h _ _ _).mpr ⟨d₁, List.append_assoc .., hx⟩, ?_⟩
        rw [bind_of_ok (ih.mpr ⟨d₂, rfl, Nat.succ_injective hl, hxs⟩)]
        rfl

theorem Takes.counted {c : Serializable α} (h : c.Takes) {d rest : ConstDataBuffer}
    {xs : List α} : getVector c.get d = .ok xs rest ↔
      ∃ used, d = used ++ rest ∧ CountedForm c.form used xs := by
  unfold getVector
  rw [bind_eq_ok]
  constructor
  · rintro ⟨n, d₁, hn, hxs⟩
    obtain ⟨count, rfl, hcount⟩ := readNumber_eq_ok.mp hn
    obtain ⟨body, rfl, hl, hform⟩ := h.many.mp hxs
    exact ⟨count ++ body, (List.append_assoc ..).symm, count, n, body, hcount, hl, hform, rfl⟩
  · rintro ⟨used, rfl, count, n, body, hcount, hl, hform, rfl⟩
    exact ⟨n, body ++ rest, readNumber_eq_ok.mpr ⟨count, List.append_assoc .., hcount⟩,
      h.many.mpr ⟨body, rfl, hl, hform⟩⟩

theorem Takes.list {c : Serializable α} (h : c.Takes) : c.list.Takes := fun _ _ _ => h.counted

theorem Takes.set [DecidableEq α] {c : Serializable α} (h : c.Takes) (less : α → α → Bool) :
    (c.set less).Takes := by
  intro d xs rest
  refine map_eq_ok.trans ?_
  constructor
  · rintro ⟨items, hitems, rfl⟩
    obtain ⟨used, rfl, hform⟩ := h.counted.mp hitems
    exact ⟨used, rfl, items, hform, rfl⟩
  · rintro ⟨used, rfl, items, hform, rfl⟩
    exact ⟨items, h.counted.mpr ⟨used, rfl, hform⟩, rfl⟩

theorem Takes.map [DecidableEq α] {a : Serializable α} {b : Serializable β} (ha : a.Takes)
    (hb : b.Takes) (less : α → α → Bool) : (a.map less b).Takes := by
  intro d m rest
  refine map_eq_ok.trans ?_
  constructor
  · rintro ⟨entries, hentries, rfl⟩
    obtain ⟨used, rfl, hform⟩ := (ha.both hb).counted.mp hentries
    exact ⟨used, rfl, entries, hform, rfl⟩
  · rintro ⟨used, rfl, entries, hform, rfl⟩
    exact ⟨entries, (ha.both hb).counted.mpr ⟨used, rfl, hform⟩, rfl⟩

theorem json_takes : json.Takes := by
  intro d v rest
  change (do
    let valueStr ← getString
    match JsonParser.parse deserializeName valueStr with
    | .ok v => return v
    | .error e => throw (jsonError e) : BinaryDeserializer JsonValue) d = _ ↔ _
  rw [bind_eq_ok]
  constructor
  · rintro ⟨text, d₁, htext, hv⟩
    obtain ⟨used, rfl, hform⟩ := getString_eq_ok.mp htext
    cases hparse : JsonParser.parse deserializeName text with
    | error e =>
      rw [hparse] at hv
      cases hv
    | ok v' =>
      rw [hparse] at hv
      cases hv
      exact ⟨used, rfl, text, hform, hparse⟩
  · rintro ⟨used, rfl, text, hform, hparse⟩
    refine ⟨text, rest, getString_eq_ok.mpr ⟨used, rfl, hform⟩, ?_⟩
    rw [hparse]
    rfl

end Serializable
end Vds
