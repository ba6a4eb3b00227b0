import Vds.Database.SqlEmission

/-! Whole statements: the labels of their tables, and the text of a statement read back as the statement. -/

namespace Vds.Orm

open WsApi (text decimal)
open Library
open Library.Sql (Reads Says Lead Gap Clause tokens isName separated condition query parameter setter name
  stops itemStops closes)

variable {V : Type}

/-! ### Labels -/

def label (k : Nat) : StdString := text "t" ++ decimal k

theorem label_injective {j k : Nat} (h : label j = label k) : j = k := by
  have hd : decimal j = decimal k := List.append_cancel_left h
  rw [← WsApi.digitsFrom_decimal j, hd, WsApi.digitsFrom_decimal]

theorem upper_of_isDigit {c : UInt8} (h : isDigit c) : Sql.upper c = c := by
  have hall : ∀ c : UInt8, isDigit c = true → Sql.upper c = c := Library.forall_byte (by decide +kernel)
  exact hall c h

theorem isName_label (k : Nat) : isName (label k) := by
  have hdigits := WsApi.isDigit_decimal k
  have hupper : (label k).map Sql.upper = text "T" ++ decimal k := by
    rw [label, List.map_append, List.map_congr_left fun c hc => upper_of_isDigit (hdigits c hc), List.map_id']
    rfl
  have hfirst : ∀ w : StdString, w.head? ≠ some 0x54 → (label k).map Sql.upper ≠ w := by
    rintro w hw rfl
    rw [hupper] at hw
    exact hw rfl
  have hword : (decimal k).all Sql.isWord := by
    rw [List.all_eq_true]
    exact fun c hc => Sql.isWord_of_isDigit (hdigits c hc)
  have hnone : Sql.keywords.lookup ((label k).map Sql.upper) = none := by
    rw [List.lookup_eq_none_iff]
    have hkeys : ∀ p ∈ Sql.keywords, p.1.head? ≠ some 0x54 := by decide
    exact fun p hp => bne_iff_ne.mpr (hfirst p.1 (hkeys p hp))
  change (_ && _ && ((decide (_ ≠ _) && decide (_ ≠ _)) && _)) = true
  simp only [Bool.and_eq_true, decide_eq_true_eq]
  refine ⟨⟨by decide, hword⟩, ⟨hfirst _ (by decide), hfirst _ (by decide)⟩, ?_⟩
  rw [Option.isNone_iff_eq_none]
  exact hnone

/-- Every label is one that was there before, or is numbered below the next one, and stands for one table. -/
structure Numbered (insertFirst : Bool) (own : DatabaseTable → StdString → Prop) (al : Aliases) : Prop where
  below : ∀ t a, al.lookup t = some a → own t a ∨ ∃ k < al.keys.length + insertFirst.toNat, a = label k
  injective : ∀ t u a, al.lookup t = some a → al.lookup u = some a → t = u

theorem keys_insert_length {t : DatabaseTable} {al : Aliases} (h : t ∉ al) (a : StdString) :
    (al.insert t a).keys.length = al.keys.length + 1 := by
  rw [AList.keys_insert, List.length_cons, List.erase_of_not_mem h]

theorem assignAlias_eq {insertFirst : Bool} {t : DatabaseTable} {al : Aliases} (h : t ∉ al) :
    assignAlias insertFirst t al = al.insert t (label (al.keys.length + insertFirst.toNat)) := by
  cases insertFirst with
  | false => rfl
  | true =>
    rw [assignAlias]
    simp only [if_true, keys_insert_length h]
    rfl

theorem Numbered.assign {insertFirst : Bool} {own : DatabaseTable → StdString → Prop} {al : Aliases}
    (h : Numbered insertFirst own al) (hown : ∀ t k, ¬own t (label k)) {t : DatabaseTable} (ht : t ∉ al) :
    Numbered insertFirst own (assignAlias insertFirst t al) := by
  rw [assignAlias_eq ht]
  have hnew : ∀ u, al.lookup u ≠ some (label (al.keys.length + insertFirst.toNat)) := by
    intro u hu
    rcases h.below u _ hu with h' | ⟨k, hk, heq⟩
    · exact hown u _ h'
    · exact absurd (label_injective heq) (by omega)
  constructor
  · intro u a hu
    rw [keys_insert_length ht]
    rw [Table.lookup_insert_eq] at hu
    split_ifs at hu with heq
    · cases hu
      exact .inr ⟨_, by omega, rfl⟩
    · refine (h.below u a hu).imp_right fun ⟨k, hk, ha⟩ => ⟨k, by omega, ha⟩
  · intro u v a hu hv
    rw [Table.lookup_insert_eq] at hu hv
    split_ifs at hu hv with hut hvt hvt
    · rw [hut, hvt]
    · cases hu
      exact absurd hv (hnew v)
    · cases hv
      exact absurd hu (hnew u)
    · exact h.injective u v a hu hv

def assignAll (insertFirst : Bool) (ts : List DatabaseTable) (al : Aliases) : Aliases :=
  ts.foldl (fun al t => assignAlias insertFirst t al) al

theorem Numbered.assignAll {insertFirst : Bool} {own : DatabaseTable → StdString → Prop} {ts : List DatabaseTable}
    {al : Aliases} (h : Numbered insertFirst own al) (hown : ∀ t k, ¬own t (label k)) (hts : ts.Nodup)
    (hnew : ∀ t ∈ ts, t ∉ al) : Numbered insertFirst own (assignAll insertFirst ts al) ∧
      (∀ t, t ∈ assignAll insertFirst ts al ↔ t ∈ ts ∨ t ∈ al) ∧
      ∀ t ∈ al, (Orm.assignAll insertFirst ts al).lookup t = al.lookup t := by
  induction ts generalizing al with
  | nil => exact ⟨h, fun t => by simp [Orm.assignAll], fun _ _ => rfl⟩
  | cons t ts ih =>
    obtain ⟨hnot, hts⟩ := List.nodup_cons.mp hts
    have ht := hnew t (List.mem_cons_self ..)
    have hstep := h.assign hown ht
    have hmem : ∀ u, u ∈ assignAlias insertFirst t al ↔ u = t ∨ u ∈ al := fun u => by
      rw [assignAlias_eq ht, AList.mem_insert]
    obtain ⟨hn, hin, hold⟩ := ih hstep hts fun u hu hmem' => by
      rcases (hmem u).mp hmem' with rfl | hal
      · exact hnot hu
      · exact hnew u (List.mem_cons_of_mem _ hu) hal
    refine ⟨hn, fun u => ?_, fun u hu => ?_⟩
    · rw [Orm.assignAll, List.foldl_cons]
      refine (hin u).trans ?_
      rw [hmem, List.mem_cons]
      tauto
    · have hne : u ≠ t := by
        rintro rfl
        exact ht hu
      rw [Orm.assignAll, List.foldl_cons]
      refine (hold u ((hmem u).mpr (.inr hu))).trans ?_
      rw [assignAlias_eq ht, AList.lookup_insert_ne hne]

theorem tableOf_of_lookup {al : Aliases} (h : ∀ t u a, al.lookup t = some a → al.lookup u = some a → t = u)
    {t : DatabaseTable} {a : StdString} (ht : al.lookup t = some a) : tableOf al a = some t := by
  have hmem : (⟨t, a⟩ : Sigma fun _ : DatabaseTable => StdString) ∈ al.entries := AList.mem_lookup_iff.mp ht
  rw [tableOf]
  cases hfind : al.entries.find? fun e => e.2 = a with
  | none => exact absurd (List.find?_eq_none.mp hfind _ hmem) (by simp)
  | some e =>
    have he : e.2 = a := by simpa using List.find?_some hfind
    have hlookup : al.lookup e.1 = some a := by
      rw [← he]
      exact AList.mem_lookup_iff.mpr (List.mem_of_find?_eq_some hfind)
    rw [Option.map_some, h e.1 t a hlookup ht]

/-! ### The tables of a statement -/

mutual

/-- The tables that are asked for a label, in their order. -/
def Exp.tables : Exp V → List DatabaseTable
  | .compare .. => []
  | .logicalAnd left right => left.tables ++ right.tables
  | .logicalOr left right => left.tables ++ right.tables
  | .notIn _ right => right.tables
  | .notInValues .. => []
  | .inValues .. => []
  | .isNull _ => []

def Sources.tables : Sources V → List DatabaseTable
  | .select t .. => [t]
  | .join s t _ _ => s.tables ++ [t]

def Reader.tables : Reader V → List DatabaseTable
  | .sources s _ => s.tables
  | .where_ s cond _ => s.tables ++ cond.tables

end

theorem assignAll_append (insertFirst : Bool) (ts us : List DatabaseTable) (al : Aliases) :
    assignAll insertFirst (ts ++ us) al = assignAll insertFirst us (assignAll insertFirst ts al) :=
  List.foldl_append ..

mutual

theorem collectAliases_exp (insertFirst : Bool) (e : Exp V) (al : Aliases) :
    e.collectAliases insertFirst al = assignAll insertFirst e.tables al := by
  match e with
  | .compare .. | .notInValues .. | .inValues .. | .isNull _ => rfl
  | .logicalAnd left right | .logicalOr left right =>
    rw [Exp.collectAliases, Exp.tables, assignAll_append, collectAliases_exp insertFirst left,
      collectAliases_exp insertFirst right]
  | .notIn _ right =>
    rw [Exp.collectAliases, Exp.tables, collectAliases_reader insertFirst right]

theorem collectAliases_sources (insertFirst : Bool) (s : Sources V) (al : Aliases) :
    s.collectAliases insertFirst al = assignAll insertFirst s.tables al := by
  match s with
  | .select t .. => rfl
  | .join s t _ _ =>
    rw [Sources.collectAliases, Sources.tables, assignAll_append, collectAliases_sources insertFirst s]
    rfl

theorem collectAliases_reader (insertFirst : Bool) (r : Reader V) (al : Aliases) :
    r.collectAliases insertFirst al = assignAll insertFirst r.tables al := by
  match r with
  | .sources s _ => rw [Reader.collectAliases, Reader.tables, collectAliases_sources insertFirst s]
  | .where_ s cond _ =>
    rw [Reader.collectAliases, Reader.tables, assignAll_append, collectAliases_sources insertFirst s,
      collectAliases_exp insertFirst cond]

end

def Statement.tables : Statement V → List DatabaseTable
  | .reader r => r.tables
  | .insert .. => []
  | .insertFrom _ _ _ r => r.tables
  | .update t _ _ none => [t]
  | .update t _ _ (some cond) => t :: cond.tables
  | .delete t cond => t :: cond.tables

def Known (ts : List DatabaseTable) (t : DatabaseTable) : Prop := t ∈ ts ∧ isName t.name

def Named (ts : List DatabaseTable) (c : DatabaseColumn) : Prop := c.owner ∈ ts ∧ isName c.name

def Reader.WellFormed (r : Reader V) : Prop := r.Uses (Named r.tables) (Named r.tables) (Known r.tables)

/-- The names are names of the language, and a column belongs to a table of the statement. A query within
an update does not use the table that is updated, whose columns have no label, and a table that is deleted
from is not called like a label. -/
def Statement.Uses : Statement V → Prop
  | .reader r => r.WellFormed
  | .insert _ table setter setters => isName table ∧ ∀ x ∈ setter :: setters, isName x.1
  | .insertFrom table c cs r => isName table ∧ (∀ x ∈ c :: cs, isName x) ∧ r.WellFormed
  | .update t setter setters none => isName t.name ∧ ∀ x ∈ setter :: setters, isName x.1
  | .update t setter setters (some cond) =>
    isName t.name ∧ (∀ x ∈ setter :: setters, isName x.1) ∧
      cond.Uses (Named (t :: cond.tables)) (Named cond.tables) (Known cond.tables)
  | .delete t cond =>
    isName t.name ∧ (∀ k, t.name ≠ label k) ∧
      cond.Uses (Named (t :: cond.tables)) (Named (t :: cond.tables)) (Known cond.tables)

structure Statement.WellFormed (s : Statement V) : Prop where
  /-- A table object stands in one place of the statement. -/
  distinct : s.tables.Nodup
  uses : s.Uses

section Bounds

variable {insertFirst : Bool} {ts : List DatabaseTable}

/-- The labels of a statement of its own. -/
theorem numbered_all (hts : ts.Nodup) :
    Numbered insertFirst (fun _ _ => False) (assignAll insertFirst ts ∅) ∧
      ∀ t, t ∈ assignAll insertFirst ts ∅ ↔ t ∈ ts := by
  have hempty : Numbered insertFirst (fun _ _ => False) (∅ : Aliases) :=
    ⟨fun _ _ h => (by cases h), fun _ _ _ h => (by cases h)⟩
  obtain ⟨hn, hin, _⟩ := hempty.assignAll (fun _ _ h => h) hts fun t _ => AList.notMem_empty t
  refine ⟨hn, fun t => (hin t).trans ?_⟩
  simp only [AList.notMem_empty, or_false]

/-- The labels of a statement whose own table has the label `a`. -/
theorem numbered_own {t : DatabaseTable} {a : StdString} (ha : ∀ k, a ≠ label k) (hts : (t :: ts).Nodup) :
    Numbered insertFirst (fun u b => u = t ∧ b = a) (assignAll insertFirst ts ((∅ : Aliases).insert t a)) ∧
      (∀ u, u ∈ assignAll insertFirst ts ((∅ : Aliases).insert t a) ↔ u ∈ ts ∨ u = t) ∧
      (assignAll insertFirst ts ((∅ : Aliases).insert t a)).lookup t = some a := by
  obtain ⟨hnot, hts⟩ := List.nodup_cons.mp hts
  have hlookup : ∀ u b, ((∅ : Aliases).insert t a).lookup u = some b → u = t ∧ b = a := by
    intro u b h
    rw [Table.lookup_insert_eq] at h
    split_ifs at h with hu
    · cases h
      exact ⟨hu, rfl⟩
    · cases h
  have hfirst : Numbered insertFirst (fun u b => u = t ∧ b = a) ((∅ : Aliases).insert t a) :=
    ⟨fun u b h => .inl (hlookup u b h), fun u v b hu hv => (hlookup u b hu).1.trans (hlookup v b hv).1.symm⟩
  have hmem : ∀ u, u ∈ (∅ : Aliases).insert t a ↔ u = t := fun u => by
    rw [AList.mem_insert]
    simp only [AList.notMem_empty, or_false]
  obtain ⟨hn, hin, hold⟩ := hfirst.assignAll (fun u k h => ha k h.2.symm) hts fun u hu hal =>
    hnot ((hmem u).mp hal ▸ hu)
  refine ⟨hn, fun u => (hin u).trans (or_congr_right (hmem u)), ?_⟩
  rw [hold t ((hmem t).mpr rfl), AList.lookup_insert]

variable {own : DatabaseTable → StdString → Prop} {al : Aliases} (h : Numbered insertFirst own al)
include h

theorem Numbered.scope {t : DatabaseTable} (ht : t ∈ al) :
    ∃ a, al.lookup t = some a ∧ tableOf al a = some t ∧ (own t a ∨ isName a) := by
  obtain ⟨a, ha⟩ := Option.isSome_iff_exists.mp (AList.lookup_isSome.mpr ht)
  refine ⟨a, ha, tableOf_of_lookup h.injective ha, (h.below t a ha).imp_right ?_⟩
  rintro ⟨k, _, rfl⟩
  exact isName_label k

/-- No table has the empty label. -/
theorem Numbered.scope_nil (hown : ∀ t, ¬own t []) : tableOf al [] = none := by
  rw [tableOf, Option.map_eq_none_iff, List.find?_eq_none]
  intro e he hnil
  have hl : al.lookup e.1 = some e.2 := AList.mem_lookup_iff.mpr he
  rw [of_decide_eq_true hnil] at hl
  rcases h.below e.1 [] hl with h' | ⟨k, _, hk⟩
  · exact hown _ h'
  · exact absurd (isName_label k) (by rw [← hk]; decide)

theorem Numbered.columnBound {c : DatabaseColumn} (hc : c.owner ∈ al) (hname : isName c.name)
    (hown : ∀ t a, own t a → a = [] ∨ isName a) : ColumnBound al (tableOf al) c := by
  obtain ⟨a, ha, hscope, hor⟩ := h.scope hc
  exact ⟨hname, a, ha, hscope, hor.elim (hown _ _) .inr⟩

theorem Numbered.tableBound {t : DatabaseTable} (ht : t ∈ al) (hname : isName t.name)
    (hown : ∀ a, own t a → isName a) : TableBound al (tableOf al) t := by
  obtain ⟨a, ha, hscope, hor⟩ := h.scope ht
  exact ⟨hname, a, ha, hscope, hor.elim (hown a) id⟩

end Bounds

/-- A column with a label is read the same in a query within. -/
theorem ColumnBound.inner {al : Aliases} {scope : Scope} {c : DatabaseColumn} (h : ColumnBound al scope c)
    (hne : scope [] ≠ some c.owner) : ColumnBound al scope.inner c := by
  obtain ⟨hc, a, ha, hscope, hor⟩ := h
  refine ⟨hc, a, ha, ?_, hor⟩
  rw [Scope.inner, if_neg]
  · exact hscope
  · rintro rfl
    exact hne hscope

/-! ### Statements -/

/-- The text is read as the statement. -/
def StatementText (al : Aliases) (s : Statement V) (sql : StdString) (final : List V) : Prop :=
  ∃ ast, Sql.statement (tokens sql) = some ast ∧ statementOf final (tableOf al) ast = some s

theorem readBack_of_text {al : Aliases} {s : Statement V} {sql : StdString} {final : List V}
    (h : StatementText al s sql final) : readBack al sql final = some s := by
  obtain ⟨ast, hast, hs⟩ := h
  rw [readBack, Sql.read, hast]
  exact hs

section Reader

variable {al : Aliases} {r : Reader V}

/-- The parts of a query behind a text that stands before it. -/
theorem emits_query {scope : Scope} {P Q : DatabaseColumn → Prop} {T : DatabaseTable → Prop}
    (hempty : scope [] = none) (hP : ∀ c, P c → ColumnBound al scope c)
    (hQ : ∀ c, Q c → ColumnBound al scope.inner c) (hT : ∀ t, T t → TableBound al scope t) (h : r.Uses P Q T)
    (before : StdString) :
    Emits al (sum (startSelect (literal before)) [r.generateSelect, r.collectSources, r.collectCondition,
      r.finalSql]) fun s final => ∃ q, s = before ++ q ∧ QueryText scope r q final := by
  obtain ⟨hsources, hcondition⟩ := emits_reader hP hQ hT r h
  refine ((((((emits_literal before).plus (emits_literal (text "SELECT "))).plus
    (emits_readerSelect hP r h)).plus hsources).plus hcondition).plus
    (emits_readerFinal hempty hP r h)).mono ?_
  rintro _ final ⟨_, w, rfl, ⟨_, c, rfl, ⟨_, v, rfl, ⟨_, u, rfl, ⟨_, _, rfl, rfl, rfl⟩, hu⟩, hv⟩, hc⟩, hw⟩
  exact ⟨text "SELECT " ++ u ++ v ++ c ++ w, by simp only [List.append_assoc], queryText hu hv hc hw⟩

/-- A query whose tables are all that have labels. -/
theorem emits_ownQuery {insertFirst : Bool} (hts : r.tables.Nodup) (h : r.WellFormed) (before : StdString) :
    Emits (assignAll insertFirst r.tables ∅)
      (sum (startSelect (literal before)) [r.generateSelect, r.collectSources, r.collectCondition, r.finalSql])
      fun s final => ∃ q, s = before ++ q ∧
        QueryText (tableOf (assignAll insertFirst r.tables ∅)) r q final := by
  obtain ⟨hn, hin⟩ := @numbered_all insertFirst _ hts
  have hempty := hn.scope_nil fun _ h => h
  have hP : ∀ c, Named r.tables c →
      ColumnBound (assignAll insertFirst r.tables ∅) (tableOf (assignAll insertFirst r.tables ∅)) c :=
    fun c hc => hn.columnBound ((hin _).mpr hc.1) hc.2 fun _ _ h => h.elim
  refine emits_query hempty hP (fun c hc => (hP c hc).inner ?_)
    (fun t ht => hn.tableBound ((hin t).mpr ht.1) ht.2 fun _ h => h.elim) h before
  rw [hempty]
  rintro ⟨⟩

end Reader

/-- The names of columns, with commas between them. -/
theorem stands_commas {c : StdString} {cs : List StdString} (h : ∀ x ∈ c :: cs, isName x) :
    Stands (separated name) 1 stops (List.mapM some) (c :: cs) (commas c cs) := by
  have hone : ∀ x, isName x → Stands name 0 itemStops some x x := fun x hx => by
    obtain ⟨hs, ht⟩ := Sql.says_name hx
    refine ⟨hs, x, ?_, rfl⟩
    rw [ht]
    exact Sql.reads_name x
  induction cs generalizing c with
  | nil => exact stands_single (hone c (h c (List.mem_cons_self ..)))
  | cons d ds ih =>
    exact stands_cons (hone c (h c (List.mem_cons_self ..))) (ih fun x hx => h x (List.mem_cons_of_mem _ hx))

theorem stands_columns {c : StdString} {cs : List StdString} (h : ∀ x ∈ c :: cs, isName x) :
    Says (commas c cs) ∧ Reads (separated name) 1 stops (tokens (commas c cs)) (c :: cs) := by
  obtain ⟨hs, as, hr, has⟩ := stands_commas h
  have heq : as = c :: cs := by
    have hsome : ∀ xs : List StdString, xs.mapM some = some xs := fun xs => by
      induction xs with
      | nil => rfl
      | cons x xs ih => exact mapM_cons rfl ih
    rw [hsome, Option.some.injEq] at has
    exact has
  rw [heq] at hr
  exact ⟨hs, hr⟩

/-- `INTO` a table, with its columns, behind a verb. -/
theorem says_into {v table : StdString} (hv : Says v) (ht : isName table) {c : StdString} {cs : List StdString}
    (hc : ∀ x ∈ c :: cs, isName x) :
    Says (v ++ text " INTO " ++ table ++ text "(" ++ commas c cs) ∧
      tokens (v ++ text " INTO " ++ table ++ text "(" ++ commas c cs) =
        tokens v ++ .keyword .into :: .name table :: .opening :: tokens (commas c cs) := by
  obtain ⟨hst, htt⟩ := Sql.says_name ht
  obtain ⟨hsc, _⟩ := stands_columns hc
  have hinto : tokens (text " INTO ") = [.keyword .into] := by decide
  have hopening : tokens (text "(") = [.opening] := by decide
  obtain ⟨h₁, t₁⟩ := hv.join (g := text " INTO ") ⟨by decide, by decide, by decide⟩ hst
  obtain ⟨h₂, t₂⟩ := h₁.join (g := text "(") ⟨by decide, by decide, by decide⟩ hsc
  refine ⟨h₂, ?_⟩
  rw [t₂, t₁, htt, hinto, hopening]
  simp only [List.append_assoc, List.cons_append, List.nil_append]

theorem strategy_tokens (strategy : InsertStrategy) :
    Says strategy.sql ∧ ∃ verb, tokens strategy.sql = Sql.verbTokens verb ∧ strategyOf verb = strategy := by
  cases strategy with
  | regular => exact ⟨⟨by decide, by decide⟩, .insert, by decide, rfl⟩
  | replace => exact ⟨⟨by decide, by decide⟩, .replace, by decide, rfl⟩
  | ignore => exact ⟨⟨by decide, by decide⟩, .insertOrIgnore, by decide, rfl⟩

theorem statementText_insert {al : Aliases} {final : List V} {strategy : InsertStrategy} {table : StdString}
    {setter : StdString × V} {setters : List (StdString × V)} {u : StdString} (ht : isName table)
    (hc : ∀ x ∈ setter :: setters, isName x.1)
    (hu : SettersText final (([], setter.2) :: setters.map fun s => (text ",", s.2)) u) :
    StatementText al (.insert strategy table setter setters) (strategy.sql ++ text " INTO " ++ table ++
      text "(" ++ commas setter.1 (setters.map Prod.fst) ++ text ") VALUES (" ++ u ++ text ")") final := by
  obtain ⟨hv, verb, hverb, hstrategy⟩ := strategy_tokens strategy
  have hnames : ∀ x ∈ setter.1 :: setters.map Prod.fst, isName x := by
    intro x hx
    rw [← List.map_cons (f := Prod.fst)] at hx
    obtain ⟨s, hs, rfl⟩ := List.mem_map.mp hx
    exact hc s hs
  obtain ⟨_, hcolumns⟩ := stands_columns hnames
  obtain ⟨hsi, hti⟩ := says_into hv ht hnames
  have hvalues : SettersText final (([], setter.2) :: (setters.map Prod.snd).map fun v => (text ",", v)) u := by
    rw [List.map_map]
    exact hu
  obtain ⟨hsu, is, his, hread⟩ := stands_values hvalues
  have hgap : tokens (text ") VALUES (") = [.closing, .keyword .values, .opening] := by decide
  have hclosing : tokens (text ")") = [.closing] := by decide
  obtain ⟨h₁, t₁⟩ := hsi.join (g := text ") VALUES (") ⟨by decide, by decide, by decide⟩ hsu
  obtain ⟨_, t₂⟩ := h₁.clause (c := text ")") ⟨by decide, by decide⟩
  refine ⟨.insert verb table (setter.1 :: setters.map Prod.fst) is, ?_, ?_⟩
  · rw [t₂, t₁, hti, hgap, hclosing, hverb]
    simpa only [List.append_assoc, List.cons_append, List.nil_append]
      using Sql.statement_insert hcolumns his verb table
  · have hzip : (setter.1 :: setters.map Prod.fst).zip (setter.2 :: setters.map Prod.snd) = setter :: setters := by
      rw [List.zip_cons_cons, List.zip_map', List.map_id'']
      intro x
      rfl
    simp only [statementOf, hread, List.length_cons, List.length_map, if_true, hzip, hstrategy]

theorem statementText_insertFrom {al : Aliases} {final : List V} {table c : StdString} {cs : List StdString}
    {r : Reader V} {q : StdString} (ht : isName table) (hc : ∀ x ∈ c :: cs, isName x)
    (hq : QueryText (tableOf al) r q final) :
    StatementText al (.insertFrom table c cs r)
      (text "INSERT INTO " ++ table ++ text "(" ++ commas c cs ++ text ") " ++ q) final := by
  obtain ⟨⟨hqs, ast, hread, hr⟩, ts, hts⟩ := hq
  obtain ⟨_, hcolumns⟩ := stands_columns hc
  obtain ⟨hsi, hti⟩ := says_into (v := text "INSERT") ⟨by decide, by decide⟩ ht hc
  have hinsert : tokens (text "INSERT") = [.keyword .insert] := by decide
  have hgap : tokens (text ") ") = [.closing] := by decide
  obtain ⟨_, t₁⟩ := hsi.join (g := text ") ") ⟨by decide, by decide, by decide⟩ hqs
  refine ⟨.insertFrom table (c :: cs) ast, ?_, ?_⟩
  · rw [hts] at hread
    have htext : text "INSERT INTO " = text "INSERT" ++ text " INTO " := rfl
    rw [htext, t₁, hti, hgap, hinsert, hts]
    simpa only [List.append_assoc, List.cons_append, List.nil_append]
      using Sql.statement_insertFrom hcolumns hread table
  · rw [statementOf, hr]
    rfl

theorem stands_update {final : List V} {setter : StdString × V} {setters : List (StdString × V)} {u : StdString}
    (hc : ∀ x ∈ setter :: setters, isName x.1)
    (hu : SettersText final ((setter.1 ++ text "=", setter.2) ::
      setters.map fun s => (text "," ++ s.1 ++ text "=", s.2)) u) :
    Stands (separated Sql.setter) 1 stops (List.mapM (setterOf final)) (setter :: setters) u := by
  have hone : ∀ x ∈ setter :: setters, ∀ s, ParameterText x.2 s final →
      Stands Sql.setter 0 itemStops (setterOf final) (id x) ((x.1 ++ text "=") ++ s) := by
    rintro x hx s ⟨hs, i, ht, hi⟩
    obtain ⟨hsn, htn⟩ := Sql.says_name (hc x hx)
    have hequal : tokens (text "=") = [.operator .equal] := by decide
    obtain ⟨hsaid, htokens⟩ := hsn.join (g := text "=") ⟨by decide, by decide, by decide⟩ hs
    refine ⟨hsaid, (x.1, i), ?_, ?_⟩
    · rw [htokens, htn, hequal, ht]
      exact Sql.reads_setter x.1 i
    · rw [setterOf, hi]
      rfl
  have h := stands_setters (fun x : StdString × V => x.1 ++ text "=") (fun x => x.2) id hone (s := u) ?_
  · rwa [List.map_id] at h
  · simpa only [List.append_assoc] using hu

/-- The head of an update, with its setters. -/
theorem says_update {t u : StdString} (ht : isName t) (hu : Says u) :
    Says (text "UPDATE " ++ t ++ text " SET " ++ u) ∧
      tokens (text "UPDATE " ++ t ++ text " SET " ++ u) =
        .keyword .update :: .name t :: .keyword .set :: tokens u := by
  obtain ⟨hst, htt⟩ := Sql.says_name ht
  have hupdate : tokens (text "UPDATE ") = [.keyword .update] := by decide
  have hset : tokens (text " SET ") = [.keyword .set] := by decide
  obtain ⟨h₁, t₁⟩ := Lead.says (l := text "UPDATE ") ⟨by decide, by decide⟩ hst
  obtain ⟨h₂, t₂⟩ := h₁.join (g := text " SET ") ⟨by decide, by decide, by decide⟩ hu
  refine ⟨h₂, ?_⟩
  rw [t₂, t₁, htt, hupdate, hset]
  rfl

section Own

variable {al : Aliases} {final : List V} {t : DatabaseTable} {u x : StdString} {cond : Exp V}

theorem statementText_update {setter : StdString × V} {setters : List (StdString × V)} (ht : isName t.name)
    (hscope : tableOf al [] = some t)
    (hu : Stands (separated Sql.setter) 1 stops (List.mapM (setterOf final)) (setter :: setters) u) :
    StatementText al (.update t setter setters none) (text "UPDATE " ++ t.name ++ text " SET " ++ u) final := by
  obtain ⟨hus, ss, hread, hss⟩ := hu
  obtain ⟨_, htokens⟩ := says_update ht hus
  refine ⟨.update t.name ss none, ?_, ?_⟩
  · rw [htokens]
    exact Sql.statement_update hread t.name
  · simp only [statementOf, hscope, hss]
    exact if_pos rfl

theorem statementText_updateWhere {setter : StdString × V} {setters : List (StdString × V)} (ht : isName t.name)
    (hscope : tableOf al [] = some t)
    (hu : Stands (separated Sql.setter) 1 stops (List.mapM (setterOf final)) (setter :: setters) u)
    (hx : ExpText (tableOf al) cond x final) :
    StatementText al (.update t setter setters (some cond))
      (text "UPDATE " ++ t.name ++ text " SET " ++ u ++ text " WHERE " ++ x) final := by
  obtain ⟨hus, ss, hread, hss⟩ := hu
  obtain ⟨hxs, e, he, hcond⟩ := hx
  obtain ⟨hsaid, htokens⟩ := says_update ht hus
  have hwhere : tokens (text " WHERE ") = [.keyword .where] := by decide
  obtain ⟨_, t₁⟩ := hsaid.join (g := text " WHERE ") ⟨by decide, by decide, by decide⟩ hxs
  refine ⟨.update t.name ss (some e), ?_, ?_⟩
  · rw [t₁, htokens, hwhere]
    exact Sql.statement_update_where hread he t.name
  · simp only [statementOf, hscope, hss, hcond]
    exact if_pos rfl

theorem statementText_delete (ht : isName t.name) (hscope : tableOf al t.name = some t)
    (hx : ExpText (tableOf al) cond x final) :
    StatementText al (.delete t cond) (text "DELETE FROM " ++ t.name ++ text " WHERE " ++ x) final := by
  obtain ⟨hxs, e, he, hcond⟩ := hx
  obtain ⟨hst, htt⟩ := Sql.says_name ht
  have hdelete : tokens (text "DELETE FROM ") = [.keyword .delete, .keyword .from] := by decide
  have hwhere : tokens (text " WHERE ") = [.keyword .where] := by decide
  obtain ⟨h₁, t₁⟩ := Lead.says (l := text "DELETE FROM ") ⟨by decide, by decide⟩ hst
  obtain ⟨_, t₂⟩ := h₁.join (g := text " WHERE ") ⟨by decide, by decide, by decide⟩ hxs
  refine ⟨.delete t.name e, ?_, ?_⟩
  · rw [t₂, t₁, htt, hdelete, hwhere]
    exact Sql.statement_delete he t.name
  · simp only [statementOf, hscope, hcond]
    exact if_pos rfl

end Own

/-- The text that `build` composes, under the labels of the statement. -/
def Statement.sql (s : Statement V) : Emit V :=
  sum s.startSql [s.generateSelect, s.collectSources, s.collectCondition, s.finalSql]

theorem emits_nil {al : Aliases} {m : Emit V} {P : StdString → List V → Prop} (h : Emits al m P) :
    Emits al (plus m (literal [])) P :=
  (h.plus (emits_literal [])).mono fun s final ⟨u, v, hs, hu, hv⟩ => by
    rw [hs, hv, List.append_nil]
    exact hu

theorem nil_ne_label (k : Nat) : ([] : StdString) ≠ label k := by
  rintro ⟨⟩

theorem emits_sql {s : Statement V} (h : s.WellFormed) (insertFirst : Bool) :
    (∀ t u a, (s.collectAliases insertFirst).lookup t = some a → (s.collectAliases insertFirst).lookup u = some a →
      t = u) ∧
    Emits (s.collectAliases insertFirst) s.sql (StatementText (s.collectAliases insertFirst) s) := by
  obtain ⟨hts, huses⟩ := h
  cases s with
  | reader r =>
    rw [Statement.collectAliases, collectAliases_reader]
    refine ⟨(numbered_all hts).1.injective, (emits_ownQuery hts huses []).mono ?_⟩
    rintro _ final ⟨q, rfl, ⟨hq, ast, hread, hr⟩, ts, ht⟩
    refine ⟨.query ast, ?_, ?_⟩
    · rw [ht] at hread
      rw [ht]
      exact Sql.statement_query hread
    · rw [statementOf, hr]
      rfl
  | insert strategy table setter setters =>
    refine ⟨fun t u a ht => (by cases ht), ?_⟩
    refine emits_nil (emits_nil (emits_nil (emits_nil ?_)))
    refine ((emits_addSetters _ _).bind fun s => emits_literal (s ++ text ")")).mono ?_
    rintro _ final ⟨_, ⟨u, rfl, hu⟩, rfl⟩
    exact statementText_insert huses.1 huses.2 hu
  | insertFrom table c cs r =>
    obtain ⟨htable, hcs, hr⟩ := huses
    rw [Statement.collectAliases, collectAliases_reader]
    refine ⟨(numbered_all hts).1.injective, (emits_ownQuery hts hr _).mono ?_⟩
    rintro _ final ⟨q, rfl, hq⟩
    exact statementText_insertFrom htable hcs hq
  | update t setter setters cond =>
    cases cond with
    | none =>
      obtain ⟨htable, hsetters⟩ := huses
      obtain ⟨hn, _, hl⟩ := @numbered_own insertFirst _ _ _ nil_ne_label hts
      refine ⟨hn.injective, emits_nil (emits_nil (emits_nil (emits_nil ?_)))⟩
      refine (emits_addSetters _ _).mono ?_
      rintro _ final ⟨u, rfl, hu⟩
      exact statementText_update htable (tableOf_of_lookup hn.injective hl) (stands_update hsetters hu)
    | some cond =>
      obtain ⟨htable, hsetters, hcond⟩ := huses
      rw [Statement.collectAliases, collectAliases_exp]
      obtain ⟨hn, hin, hl⟩ := @numbered_own insertFirst _ _ _ nil_ne_label hts
      have hscope := tableOf_of_lookup hn.injective hl
      have hown : ∀ u a, u = t ∧ a = [] → a = [] ∨ isName a := fun u a h => .inl h.2
      have hmem : ∀ u ∈ t :: cond.tables, u ∈ assignAll insertFirst cond.tables ((∅ : Aliases).insert t []) :=
        fun u hu => (hin u).mpr ((List.mem_cons.mp hu).symm)
      have hnot := (List.nodup_cons.mp hts).1
      have hx := emits_exp (fun c hc => hn.columnBound (hmem _ hc.1) hc.2 hown)
        (fun c hc => (hn.columnBound (hmem _ (List.mem_cons_of_mem _ hc.1)) hc.2 hown).inner (by
          rw [hscope, ne_eq, Option.some.injEq]
          rintro rfl
          exact hnot hc.1))
        (fun u hu => hn.tableBound (hmem _ (List.mem_cons_of_mem _ hu.1)) hu.2 (by
          rintro a ⟨rfl, _⟩
          exact absurd hu.1 hnot)) cond hcond
      refine ⟨hn.injective, emits_nil ((((emits_nil (emits_nil (emits_addSetters _ _))).plus
        ((emits_literal (text " WHERE ")).plus hx))).mono ?_)⟩
      rintro _ final ⟨_, _, rfl, ⟨u, rfl, hu⟩, _, x, rfl, rfl, hx⟩
      rw [← List.append_assoc]
      exact statementText_updateWhere htable hscope (stands_update hsetters hu) hx
  | delete t cond =>
    obtain ⟨htable, hlabel, hcond⟩ := huses
    rw [Statement.collectAliases, collectAliases_exp]
    obtain ⟨hn, hin, hl⟩ := @numbered_own insertFirst _ _ _ hlabel hts
    have hscope := tableOf_of_lookup hn.injective hl
    have hmem : ∀ u ∈ t :: cond.tables, u ∈ assignAll insertFirst cond.tables ((∅ : Aliases).insert t t.name) :=
      fun u hu => (hin u).mpr ((List.mem_cons.mp hu).symm)
    have hempty := hn.scope_nil fun u h => by
      rw [← h.2] at htable
      cases htable
    have hP : ∀ c, Named (t :: cond.tables) c → ColumnBound _ (tableOf _) c := fun c hc =>
      hn.columnBound (hmem _ hc.1) hc.2 fun u a h => .inr (h.2 ▸ htable)
    have hx := emits_exp hP (fun c hc => (hP c hc).inner (by
        rw [hempty]
        rintro ⟨⟩))
      (fun u hu => hn.tableBound (hmem _ (List.mem_cons_of_mem _ hu.1)) hu.2 fun a h => h.2 ▸ htable) cond hcond
    refine ⟨hn.injective, emits_nil (((emits_nil (emits_nil (emits_literal _))).plus
      ((emits_literal (text " WHERE ")).plus hx)).mono ?_)⟩
    rintro _ final ⟨_, _, rfl, rfl, _, x, rfl, rfl, hx⟩
    rw [← List.append_assoc]
    exact statementText_delete htable hscope hx

/-- `build` succeeds, no two tables have one label, and the text with its parameters is read back as the
statement, however the compiler orders the parts. -/
theorem build_read_back (s : Statement V) (h : s.WellFormed) (order : Order) :
    (∀ t u a, (s.collectAliases order.insertFirst).lookup t = some a →
        (s.collectAliases order.insertFirst).lookup u = some a → t = u) ∧
      ∃ sql parameters, s.build order = .ok (sql, parameters) ∧
        readBack (s.collectAliases order.insertFirst) sql parameters = some s := by
  obtain ⟨hlabels, hsql⟩ := emits_sql h order.insertFirst
  refine ⟨hlabels, ?_⟩
  obtain ⟨sql, b, hb, _, _, htext⟩ := hsql ⟨s.collectAliases order.insertFirst, [], order.leftFirst⟩ rfl
  refine ⟨sql, b.setParameters, ?_, readBack_of_text (htext b.setParameters (List.prefix_refl _))⟩
  rw [Statement.sql] at hb
  simp only [Statement.build, hb]
  rfl

/-- The query of `query_unknown_records`: the ancestors that are named in no row as a follower and have no
record. -/
def unknownRecords : Statement StdString :=
  let t1 : DatabaseTable := ⟨1, text "transaction_log_hierarchy"⟩
  let t2 : DatabaseTable := ⟨2, text "transaction_log_hierarchy"⟩
  let t3 : DatabaseTable := ⟨3, text "transaction_log_record"⟩
  let id : DatabaseColumn := ⟨t1, text "id"⟩
  .reader (.where_ (.select t1 (.simpleColumn id) [])
    (.logicalAnd
      (.notIn id (.sources (.select t2 (.simpleColumn ⟨t2, text "follower_id"⟩) []) .none))
      (.notIn id (.sources (.select t3 (.simpleColumn ⟨t3, text "id"⟩) []) .none)))
    .none)

theorem unknownRecords_wellFormed : unknownRecords.WellFormed where
  distinct := by decide
  uses := by
    simp only [unknownRecords, Statement.Uses, Reader.WellFormed, Reader.Uses, Sources.Uses, Exp.Uses,
      Final.Uses, List.forall_mem_singleton, Selected.Uses, Known, Named, Reader.tables, Sources.tables,
      Exp.tables]
    decide

theorem build_read_back_unknown_records : ∃ sql parameters,
    unknownRecords.build ⟨false, fun _ => false⟩ = .ok (sql, parameters) ∧
      readBack (unknownRecords.collectAliases false) sql parameters = some unknownRecords :=
  (build_read_back unknownRecords unknownRecords_wellFormed ⟨false, fun _ => false⟩).2

end Vds.Orm
