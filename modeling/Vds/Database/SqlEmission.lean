import Vds.Database.SqlReading

/-! The statement that `sql_command_builder` is given is read back from its text, in whatever order
the compiler lets the parts of the text be made. -/

namespace Vds.Orm

open WsApi (text decimal)
open Library
open Library.Sql (Reads Says Lead Gap Clause Term OrderTerm ReadsTail ReadsSources tokens isName columnTokens
  separated term orderTerm condition operand query list parameter setter stops itemStops noCall noDot closes)

variable {V : Type} {al : Aliases}

/-! ### What an expression of the builder emits -/

/-- The expression has a text, and it has the property under all the parameters that come later. -/
def Emits (al : Aliases) (m : Emit V) (P : StdString → List V → Prop) : Prop :=
  ∀ b : SqlBuilder V, b.aliases = al → ∃ s b', m b = .ok (s, b') ∧ b'.aliases = al ∧
    b.setParameters <+: b'.setParameters ∧ ∀ final, b'.setParameters <+: final → P s final

/-- A text of two parts. -/
def Both (P Q : StdString → List V → Prop) (s : StdString) (final : List V) : Prop :=
  ∃ u v, s = u ++ v ∧ P u final ∧ Q v final

theorem Emits.mono {m : Emit V} {P Q : StdString → List V → Prop} (h : Emits al m P)
    (hPQ : ∀ s final, P s final → Q s final) : Emits al m Q := by
  intro b hb
  obtain ⟨s, b', hm, hal, hpre, hP⟩ := h b hb
  exact ⟨s, b', hm, hal, hpre, fun final hf => hPQ s final (hP final hf)⟩

theorem emits_literal (s : StdString) : Emits (V := V) al (literal s) fun u _ => u = s :=
  fun b hb => ⟨s, b, rfl, hb, List.prefix_refl _, fun _ _ => rfl⟩

/-- Whichever operand is evaluated first, its parameters stay where they are. -/
theorem Emits.plus {left right : Emit V} {P Q : StdString → List V → Prop} (hl : Emits al left P)
    (hr : Emits al right Q) : Emits al (plus left right) (Both P Q) := by
  intro b hb
  by_cases hfirst : b.leftFirst 0
  · obtain ⟨s, b₁, h₁, hal₁, hpre₁, hP⟩ := hl { b with leftFirst := fun n => b.leftFirst (n + 1) } hb
    obtain ⟨u, b₂, h₂, hal₂, hpre₂, hQ⟩ := hr b₁ hal₁
    refine ⟨s ++ u, b₂, ?_, hal₂, hpre₁.trans hpre₂, fun final hf =>
      ⟨s, u, rfl, hP final (hpre₂.trans hf), hQ final hf⟩⟩
    simp only [Orm.plus, if_pos hfirst, h₁]
    change (right b₁ >>= fun x => pure (s ++ x.1, x.2)) = _
    rw [h₂]
    rfl
  · obtain ⟨u, b₁, h₁, hal₁, hpre₁, hQ⟩ := hr { b with leftFirst := fun n => b.leftFirst (n + 1) } hb
    obtain ⟨s, b₂, h₂, hal₂, hpre₂, hP⟩ := hl b₁ hal₁
    refine ⟨s ++ u, b₂, ?_, hal₂, hpre₁.trans hpre₂, fun final hf =>
      ⟨s, u, rfl, hP final hf, hQ final (hpre₂.trans hf)⟩⟩
    simp only [Orm.plus, if_neg hfirst, h₁]
    change (left b₁ >>= fun x => pure (x.1 ++ u, x.2)) = _
    rw [h₂]
    rfl

theorem emits_getAlias {t : DatabaseTable} {label : StdString} (h : al.lookup t = some label) :
    Emits (V := V) al (getAlias t) fun u _ => u = label := by
  rintro b rfl
  refine ⟨label, b, ?_, rfl, List.prefix_refl _, fun _ _ => rfl⟩
  rw [getAlias, h]

/-! ### Parameters -/

theorem numberFrom_eq {digits : StdString} (h : ∀ ch ∈ digits, isDigit ch) (n : Nat) :
    Sql.numberFrom n digits = WsApi.digitsFrom n digits := by
  induction digits generalizing n with
  | nil => rfl
  | cons ch digits ih =>
    rw [WsApi.digitsFrom, if_pos (h ch (List.mem_cons_self ..))]
    exact ih (fun c hc => h c (List.mem_cons_of_mem _ hc)) _

/-- The text of one parameter. -/
def ParameterText (v : V) (s : StdString) (final : List V) : Prop :=
  Says s ∧ ∃ i, tokens s = [.parameter i] ∧ valueOf final i = some v

theorem emits_addParameter (v : V) : Emits al (addParameter v) (ParameterText v) := by
  intro b hb
  refine ⟨_, _, rfl, hb, List.prefix_append .., fun final hf => ?_⟩
  have hdigits := WsApi.isDigit_decimal (b.setParameters ++ [v]).length
  obtain ⟨hsaid, ht⟩ := Sql.says_parameter (List.all_eq_true.mpr hdigits)
  refine ⟨hsaid, _, ht, ?_⟩
  rw [numberFrom_eq hdigits, WsApi.digitsFrom_decimal, valueOf, List.length_append, List.length_singleton,
    if_neg (Nat.succ_ne_zero _), Nat.add_sub_cancel]
  obtain ⟨later, rfl⟩ := hf
  rw [List.append_assoc, List.getElem?_append_right (Nat.le_refl _), Nat.sub_self]
  rfl

/-- Texts that end in one parameter each. -/
def SettersText (final : List V) : List (StdString × V) → StdString → Prop
  | [], s => s = []
  | (before, v) :: setters, s =>
    ∃ p u, s = before ++ p ++ u ∧ ParameterText v p final ∧ SettersText final setters u

theorem emits_addSetters (sql : StdString) (setters : List (StdString × V)) :
    Emits al (addSetters sql setters) fun s final => ∃ u, s = sql ++ u ∧ SettersText final setters u := by
  induction setters generalizing sql with
  | nil => exact (emits_literal sql).mono fun s final h => ⟨[], by rw [h, List.append_nil], rfl⟩
  | cons setter setters ih =>
    intro b hb
    obtain ⟨p, b₁, h₁, hal₁, hpre₁, hp⟩ := emits_addParameter setter.2 b hb
    obtain ⟨s, b₂, h₂, hal₂, hpre₂, hs⟩ := ih (sql ++ setter.1 ++ p) b₁ hal₁
    refine ⟨s, b₂, ?_, hal₂, hpre₁.trans hpre₂, fun final hf => ?_⟩
    · simp only [addSetters, h₁]
      exact h₂
    · obtain ⟨u, rfl, hu⟩ := hs final hf
      exact ⟨setter.1 ++ p ++ u, by simp only [List.append_assoc], p, u, rfl, hp final (hpre₂.trans hf), hu⟩

theorem addParameters_of_ne_nil {list : StdString} (h : list ≠ []) (values : List V) :
    addParameters list values = addSetters list (values.map fun v => (text ",", v)) := by
  induction values generalizing list with
  | nil => rfl
  | cons v values ih =>
    have hempty : list.isEmpty = false := by rwa [← Bool.not_eq_true, List.isEmpty_iff]
    funext b
    simp only [addParameters, hempty, Bool.false_eq_true, ↓reduceIte, List.map_cons, addSetters]
    refine congrArg (Except.bind (addParameter v b)) (funext fun x => ?_)
    rw [ih (by simp [h])]

/-- The parameters of a container are added as the values of an insertion are. -/
theorem addParameters_nil (v : V) (values : List V) :
    addParameters [] (v :: values) = addSetters [] (([], v) :: values.map fun v => (text ",", v)) := by
  funext b
  simp only [addParameters, addSetters, List.isEmpty_nil, ↓reduceIte, List.nil_append]
  exact congrFun (addParameters_of_ne_nil (List.cons_ne_nil _ _) values) _

/-! ### Parts of a text and what they are read as -/

/-- The text stands for itself, and the reader makes of it what `of` takes as `b`. -/
def Stands {A B : Type} (p : Sql.Reader A) (k : Nat) (ok : List Sql.Token → Bool) (of : A → Option B) (b : B)
    (s : StdString) : Prop :=
  Says s ∧ ∃ a, Reads p k ok (tokens s) a ∧ of a = some b

theorem mapM_cons {A B : Type} {f : A → Option B} {a : A} {as : List A} {b : B} {bs : List B}
    (h : f a = some b) (hs : as.mapM f = some bs) : (a :: as).mapM f = some (b :: bs) := by
  rw [List.mapM_cons, h, hs]
  rfl

theorem gap_comma : Gap (text ",") := ⟨by decide, by decide, by decide⟩

section Lists

variable {A B : Type} {p : Sql.Reader A} {of : A → Option B} {b : B} {bs : List B} {s u : StdString}

theorem stands_single (h : Stands p 0 itemStops of b s) :
    Stands (separated p) 1 stops (List.mapM of) [b] s := by
  obtain ⟨hs, a, hr, ha⟩ := h
  exact ⟨hs, [a], Sql.reads_separated_single hr, mapM_cons ha rfl⟩

theorem stands_cons (h : Stands p 0 itemStops of b s)
    (hu : Stands (separated p) 1 stops (List.mapM of) bs u) :
    Stands (separated p) 1 stops (List.mapM of) (b :: bs) (s ++ text "," ++ u) := by
  obtain ⟨hs, a, hr, ha⟩ := h
  obtain ⟨hus, as, hrs, has⟩ := hu
  obtain ⟨hsaid, ht⟩ := hs.join gap_comma hus
  refine ⟨hsaid, a :: as, ?_, mapM_cons ha has⟩
  rw [ht]
  exact Sql.reads_separated_cons hr hrs

/-- `generate_columns` of columns each of which is read back. -/
theorem emits_generateColumns {C : Type} {visit : C → Emit V} (read : C → B) {column : C} {columns : List C}
    (h : ∀ c ∈ column :: columns, Emits al (visit c) fun s _ => Stands p 0 itemStops of (read c) s) :
    Emits al (generateColumns visit column columns) fun s _ =>
      Stands (separated p) 1 stops (List.mapM of) ((column :: columns).map read) s := by
  induction columns generalizing column with
  | nil => exact (h column (List.mem_cons_self ..)).mono fun s _ hs => stands_single hs
  | cons next columns ih =>
    have hnext := ih fun c hc => h c (List.mem_cons_of_mem _ hc)
    refine (((h column (List.mem_cons_self ..)).plus (emits_literal (text ","))).plus hnext).mono ?_
    rintro _ final ⟨_, u, rfl, ⟨s, _, rfl, hs, rfl⟩, hu⟩
    exact stands_cons hs hu

/-- Setters of one kind, with commas between them. -/
theorem stands_setters {X : Type} (before : X → StdString) (value : X → V) (read : X → B) {final : List V}
    {x : X} {xs : List X} {s : StdString} (h : ∀ y ∈ x :: xs, ∀ s, ParameterText (value y) s final →
      Stands p 0 itemStops of (read y) (before y ++ s))
    (hs : SettersText final
      ((before x, value x) :: xs.map fun x => (text "," ++ before x, value x)) s) :
    Stands (separated p) 1 stops (List.mapM of) (read x :: xs.map read) s := by
  induction xs generalizing x s with
  | nil =>
    obtain ⟨q, u, rfl, hq, rfl⟩ := hs
    rw [List.append_nil]
    exact stands_single (h x (List.mem_cons_self ..) q hq)
  | cons y ys ih =>
    obtain ⟨q, u, rfl, hq, r, v, rfl, hr, hv⟩ := hs
    have hrest := ih (fun z hz => h z (List.mem_cons_of_mem _ hz)) (s := before y ++ r ++ v) ⟨r, v, rfl, hr, hv⟩
    have hcons := stands_cons (h x (List.mem_cons_self ..) q hq) hrest
    simpa only [List.append_assoc, List.map_cons] using hcons

end Lists

theorem stands_values {v : V} {values : List V} {final : List V} {s : StdString}
    (h : SettersText final (([], v) :: values.map fun v => (text ",", v)) s) :
    Stands (separated parameter) 1 stops (List.mapM (valueOf final)) (v :: values) s := by
  have hone : ∀ x ∈ v :: values, ∀ u, ParameterText x u final →
      Stands parameter 0 itemStops (valueOf final) x ([] ++ u) := by
    rintro x _ u ⟨hsaid, i, ht, hi⟩
    refine ⟨hsaid, i, ?_, hi⟩
    rw [List.nil_append, ht]
    exact Sql.reads_parameter i
  have hs := stands_setters (fun _ => []) id id hone h
  rwa [List.map_id] at hs

/-- The list of a container, with its end. -/
theorem emits_addParameters (values : List V) :
    Emits al (addParameters [] values) fun s final =>
      (s = [] ∨ Says s) ∧ ∃ is, Reads list 1 (fun _ => true) (tokens s ++ [.closing]) is ∧
        (∀ ts, tokens s ++ [.closing] ≠ .keyword .select :: ts) ∧ is.mapM (valueOf final) = some values := by
  cases values with
  | nil =>
    refine (emits_literal []).mono ?_
    rintro _ final rfl
    refine ⟨.inl rfl, [], Sql.list_nil, ?_, rfl⟩
    rintro ts ⟨⟩
  | cons v values =>
    rw [addParameters_nil]
    refine (emits_addSetters [] _).mono ?_
    rintro _ final ⟨s, rfl, hs⟩
    obtain ⟨hsaid, is, hr, his⟩ := stands_values hs
    obtain ⟨hlist, i, us, hfirst⟩ := Sql.list_of_separated hr
    refine ⟨.inr hsaid, is, hlist, ?_, his⟩
    rw [hfirst]
    rintro ts ⟨⟩

/-! ### The columns and the tables that a statement uses -/

def Selected.Uses (P : DatabaseColumn → Prop) : Selected → Prop
  | .simpleColumn c => P c
  | .min s | .max s | .length s | .sum s | .count s => s.Uses P

/-- A column without a function around it has a form of its own. -/
def OrderColumn.Uses (P : DatabaseColumn → Prop) : OrderColumn → Prop
  | .column c => P c
  | .exp s => s.Uses P ∧ ∀ c, s ≠ .simpleColumn c
  | .desc s => s.Uses P

def Final.Uses (P : DatabaseColumn → Prop) : Final → Prop
  | .none => True
  | .orderBy c cs | .groupBy c cs => ∀ x ∈ c :: cs, x.Uses P

def Operand.Uses (P : DatabaseColumn → Prop) : Operand V → Prop
  | .column c => P c
  | .value _ => True

/-- The columns of the sources. -/
def Sources.selected : Sources V → Selected × List Selected
  | .select _ c cs => (c, cs)
  | .join s .. => s.selected

mutual

/-- The columns satisfy `P`, those of the queries within `Q`, and the tables of the sources `T`. -/
def Exp.Uses (P Q : DatabaseColumn → Prop) (T : DatabaseTable → Prop) : Exp V → Prop
  | .compare _ left right => left.Uses P ∧ right.Uses P
  | .logicalAnd left right => left.Uses P Q T ∧ right.Uses P Q T
  | .logicalOr left right => left.Uses P Q T ∧ right.Uses P Q T
  | .notIn left right => P left ∧ right.Uses Q Q T
  | .notInValues left _ => P left
  | .inValues left _ => P left
  | .isNull left => P left

/-- No join is an outer one without a side, which the language does not have. -/
def Sources.Uses (P Q : DatabaseColumn → Prop) (T : DatabaseTable → Prop) : Sources V → Prop
  | .select t c cs => T t ∧ ∀ x ∈ c :: cs, x.Uses P
  | .join s t cond joinType => s.Uses P Q T ∧ T t ∧ cond.Uses P Q T ∧ joinType ≠ .outer

def Reader.Uses (P Q : DatabaseColumn → Prop) (T : DatabaseTable → Prop) : Reader V → Prop
  | .sources s final => s.Uses P Q T ∧ final.Uses P
  | .where_ s cond final => s.Uses P Q T ∧ cond.Uses P Q T ∧ final.Uses P

end

/-! ### Columns -/

/-- The column is written with the label of its table, and the label is read as the table. -/
def ColumnBound (al : Aliases) (scope : Scope) (c : DatabaseColumn) : Prop :=
  isName c.name ∧ ∃ label, al.lookup c.owner = some label ∧ scope label = some c.owner ∧
    (label = [] ∨ isName label)

def TableBound (al : Aliases) (scope : Scope) (t : DatabaseTable) : Prop :=
  isName t.name ∧ ∃ label, al.lookup t = some label ∧ scope label = some t ∧ isName label

/-- The text of a column. -/
def ColumnText (scope : Scope) (c : DatabaseColumn) (s : StdString) : Prop :=
  Says s ∧ ∃ label, tokens s = columnTokens label c.name ∧ columnOf scope label c.name = some c

theorem gap_dot : Gap (text ".") := ⟨by decide, by decide, by decide⟩

theorem columnOf_of_scope {scope : Scope} {c : DatabaseColumn} {label : StdString}
    (h : scope label = some c.owner) : columnOf scope label c.name = some c := by
  rw [columnOf, h]
  rfl

theorem columnText_labelled {scope : Scope} {c : DatabaseColumn} {label : StdString} (hc : isName c.name)
    (hl : isName label) (h : scope label = some c.owner) :
    ColumnText scope c (label ++ text "." ++ c.name) := by
  obtain ⟨hsl, htl⟩ := Sql.says_name hl
  obtain ⟨hsc, htc⟩ := Sql.says_name hc
  obtain ⟨hsaid, ht⟩ := hsl.join gap_dot hsc
  refine ⟨hsaid, label, ?_, columnOf_of_scope h⟩
  have hne : label ≠ [] := by
    rintro rfl
    cases hl
  rw [ht, htl, htc, columnTokens, if_neg hne]
  rfl

theorem emits_column {scope : Scope} {c : DatabaseColumn} (h : ColumnBound al scope c) :
    Emits (V := V) al c.visit fun s _ => ColumnText scope c s := by
  obtain ⟨hc, label, hlabel, hscope, hempty | hname⟩ := h
  · subst hempty
    intro b hb
    obtain ⟨u, b', hm, hal, hpre, hu⟩ := emits_getAlias (V := V) hlabel b hb
    obtain ⟨hsaid, ht⟩ := Sql.says_name hc
    refine ⟨c.name, b', ?_, hal, hpre, fun _ _ => ⟨hsaid, [], ht, columnOf_of_scope hscope⟩⟩
    rw [hu b'.setParameters (List.prefix_refl _)] at hm
    rw [DatabaseColumn.visit, hm]
    rfl
  · intro b hb
    obtain ⟨u, b', hm, hal, hpre, hu⟩ := emits_getAlias (V := V) hlabel b hb
    refine ⟨label ++ text "." ++ c.name, b', ?_, hal, hpre, fun _ _ =>
      columnText_labelled hc hname hscope⟩
    rw [hu b'.setParameters (List.prefix_refl _)] at hm
    have hne : label.isEmpty = false := by
      cases label with
      | nil => cases hname
      | cons => rfl
    rw [DatabaseColumn.visit, hm]
    change Except.ok (if label.isEmpty then c.name else label ++ text "." ++ c.name, b') = _
    rw [hne]
    rfl

/-- The text of a function of a column. -/
theorem stands_call {scope : Scope} {sel sel' : Selected} {l f s : StdString} (hl : Lead l)
    (ht : tokens l = [.name f, .opening])
    (hf : ∀ t, selectedOf scope t = some sel → selectedOf scope (.call f t) = some sel')
    (h : Stands term 0 noCall (selectedOf scope) sel s) :
    Stands term 0 noCall (selectedOf scope) sel' (l ++ s ++ text ")") := by
  obtain ⟨hs, t, hr, hsel⟩ := h
  obtain ⟨hsaid, hts⟩ := hl.enclose hs (c := text ")") ⟨by decide, by decide⟩
  refine ⟨hsaid, .call f t, ?_, hf t hsel⟩
  rw [hts, ht]
  exact Sql.reads_call hr

theorem emits_selected {scope : Scope} {P : DatabaseColumn → Prop} (hP : ∀ c, P c → ColumnBound al scope c)
    (sel : Selected) (h : sel.Uses P) :
    Emits (V := V) al sel.visit fun s _ => Stands term 0 noCall (selectedOf scope) sel s := by
  have hcall : ∀ (f : String) (sel sel' : Selected),
      Emits (V := V) al sel.visit (fun s _ => Stands term 0 noCall (selectedOf scope) sel s) →
      Lead (text (f ++ "(")) → tokens (text (f ++ "(")) = [.name (text f), .opening] →
      (∀ t, selectedOf scope t = some sel → selectedOf scope (.call (text f) t) = some sel') →
      Emits (V := V) al (plus (plus (literal (text (f ++ "("))) sel.visit) (literal (text ")"))) fun s _ =>
        Stands term 0 noCall (selectedOf scope) sel' s := by
    intro f sel sel' hsel hl ht hf
    refine (((emits_literal _).plus hsel).plus (emits_literal _)).mono ?_
    rintro _ final ⟨_, _, rfl, ⟨_, s, rfl, rfl, hs⟩, rfl⟩
    exact stands_call hl ht hf hs
  induction sel with
  | simpleColumn c =>
    refine (emits_column (hP c h)).mono ?_
    rintro s _ ⟨hs, label, ht, hc⟩
    refine ⟨hs, .column label c.name, ?_, ?_⟩
    · rw [ht]
      exact Sql.reads_column label c.name
    · rw [selectedOf, hc]
      rfl
  | min s ih =>
    exact hcall "MIN" s (.min s) (ih h) ⟨by decide, by decide⟩ (by decide) fun t ht => by
      rw [selectedOf, ht]
      exact if_pos rfl
  | max s ih =>
    exact hcall "MAX" s (.max s) (ih h) ⟨by decide, by decide⟩ (by decide) fun t ht => by
      rw [selectedOf, ht]
      rfl
  | length s ih =>
    exact hcall "LENGTH" s (.length s) (ih h) ⟨by decide, by decide⟩ (by decide) fun t ht => by
      rw [selectedOf, ht]
      rfl
  | sum s ih =>
    exact hcall "SUM" s (.sum s) (ih h) ⟨by decide, by decide⟩ (by decide) fun t ht => by
      rw [selectedOf, ht]
      rfl
  | count s ih =>
    exact hcall "COUNT" s (.count s) (ih h) ⟨by decide, by decide⟩ (by decide) fun t ht => by
      rw [selectedOf, ht]
      rfl

theorem emits_orderColumn {scope : Scope} {P : DatabaseColumn → Prop} (hempty : scope [] = none)
    (hP : ∀ c, P c → ColumnBound al scope c) (o : OrderColumn) (h : o.Uses P) :
    Emits (V := V) al o.visit fun s _ => Stands orderTerm 0 itemStops (orderOf scope) o s := by
  cases o with
  | column c =>
    obtain ⟨hc, label, hlabel, hscope, hl⟩ := hP c h
    have hname : isName label := hl.resolve_left fun hnil => by
      rw [hnil, hempty] at hscope
      cases hscope
    intro b hb
    obtain ⟨u, b', hm, hal, hpre, hu⟩ := emits_getAlias (V := V) hlabel b hb
    rw [hu b'.setParameters (List.prefix_refl _)] at hm
    refine ⟨label ++ text "." ++ c.name, b', ?_, hal, hpre, fun _ _ => ?_⟩
    · simp only [OrderColumn.visit, hm]
      rfl
    · obtain ⟨hs, q, ht, hq⟩ := columnText_labelled hc hname hscope
      refine ⟨hs, ⟨.column q c.name, false⟩, ?_, ?_⟩
      · rw [ht]
        exact Sql.reads_ascending (Sql.reads_column q c.name)
      · rw [orderOf, selectedOf, hq]
        rfl
  | exp sel =>
    refine (emits_selected hP sel h.1).mono ?_
    rintro s _ ⟨hs, t, hr, ht⟩
    refine ⟨hs, ⟨t, false⟩, Sql.reads_ascending hr, ?_⟩
    rw [orderOf, ht]
    cases sel with
    | simpleColumn c => exact absurd rfl (h.2 c)
    | _ => rfl
  | desc sel =>
    refine ((emits_selected hP sel h).plus (emits_literal (text " DESC"))).mono ?_
    rintro _ _ ⟨s, _, rfl, ⟨hs, t, hr, ht⟩, rfl⟩
    obtain ⟨hsaid, hts⟩ := hs.clause (c := text " DESC") ⟨by decide, by decide⟩
    refine ⟨hsaid, ⟨t, true⟩, ?_, ?_⟩
    · rw [hts]
      exact Sql.reads_descending hr
    · rw [orderOf, ht]

/-- The text behind the condition of a query. -/
def TailText (scope : Scope) (final : Final) (s : StdString) : Prop :=
  Clause s ∧ ∃ l, ReadsTail (tokens s) l ∧ finalOf scope l = some final

theorem emits_final {scope : Scope} {P : DatabaseColumn → Prop} (hempty : scope [] = none)
    (hP : ∀ c, P c → ColumnBound al scope c) (o : Final) (h : o.Uses P) :
    Emits (V := V) al o.finalSql fun s _ => TailText scope o s := by
  cases o with
  | none =>
    refine (emits_literal []).mono ?_
    rintro _ _ rfl
    exact ⟨⟨by decide, by decide⟩, .none, Sql.tail_none, rfl⟩
  | orderBy c cs =>
    have hcs := emits_generateColumns (V := V) id
      fun x hx => emits_orderColumn (V := V) hempty hP x (h x hx)
    refine ((emits_literal (text " ORDER BY ")).plus hcs).mono ?_
    rintro _ _ ⟨_, s, rfl, rfl, hs, terms, hr, hterms⟩
    obtain ⟨hclause, ht⟩ := Gap.says (g := text " ORDER BY ") ⟨by decide, by decide, by decide⟩ hs
    refine ⟨hclause, .orderBy terms, ?_, ?_⟩
    · rw [ht]
      exact Sql.tail_orderBy hr
    · rw [finalOf, hterms, List.map_id]
  | groupBy c cs =>
    have hcs := emits_generateColumns (V := V) id
      fun x hx => emits_orderColumn (V := V) hempty hP x (h x hx)
    refine ((emits_literal (text " GROUP BY ")).plus hcs).mono ?_
    rintro _ _ ⟨_, s, rfl, rfl, hs, terms, hr, hterms⟩
    obtain ⟨hclause, ht⟩ := Gap.says (g := text " GROUP BY ") ⟨by decide, by decide, by decide⟩ hs
    refine ⟨hclause, .groupBy terms, ?_, ?_⟩
    · rw [ht]
      exact Sql.tail_groupBy hr
    · rw [finalOf, hterms, List.map_id]

/-! ### Expressions -/

/-- The text of an expression. -/
abbrev ExpText (scope : Scope) (e : Exp V) (s : StdString) (final : List V) : Prop :=
  Stands condition 1 stops (expOf final scope) e s

theorem emits_operand {scope : Scope} {P : DatabaseColumn → Prop} (hP : ∀ c, P c → ColumnBound al scope c)
    (o : Operand V) (h : o.Uses P) :
    Emits al o.visit fun s final => Stands operand 0 noDot (operandOf scope final) o s := by
  cases o with
  | column c =>
    refine (emits_column (hP c h)).mono ?_
    rintro s final ⟨hs, label, ht, hc⟩
    refine ⟨hs, .column label c.name, ?_, ?_⟩
    · rw [ht]
      exact Sql.operand_column label c.name
    · rw [operandOf, hc]
      rfl
  | value v =>
    refine (emits_addParameter v).mono ?_
    rintro s final ⟨hs, i, ht, hi⟩
    refine ⟨hs, .parameter i, ?_, ?_⟩
    · rw [ht]
      exact Sql.operand_parameter i
    · rw [operandOf, hi]
      rfl

theorem noDot_operator (op : Sql.Operator) (ts : List Sql.Token) : noDot (.operator op :: ts) := rfl

theorem sign_tokens (r : Relation) : Gap r.sign ∧ ∃ op, tokens r.sign = [.operator op] ∧ relationOf op = some r := by
  cases r with
  | equ => exact ⟨⟨by decide, by decide, by decide⟩, .equal, by decide, rfl⟩
  | notEqu => exact ⟨⟨by decide, by decide, by decide⟩, .notEqual, by decide, rfl⟩
  | less => exact ⟨⟨by decide, by decide, by decide⟩, .less, by decide, rfl⟩
  | lessOrEqu => exact ⟨⟨by decide, by decide, by decide⟩, .lessOrEqual, by decide, rfl⟩
  | greaterOrEqu => exact ⟨⟨by decide, by decide, by decide⟩, .greaterOrEqual, by decide, rfl⟩
  | greater => exact ⟨⟨by decide, by decide, by decide⟩, .greater, by decide, rfl⟩

theorem expText_compare {scope : Scope} {final : List V} {r : Relation} {left right : Operand V} {s u : StdString}
    (hs : Stands operand 0 noDot (operandOf scope final) left s)
    (hu : Stands operand 0 noDot (operandOf scope final) right u) :
    ExpText scope (.compare r left right) (s ++ r.sign ++ u) final := by
  obtain ⟨hgap, op, hop, hrel⟩ := sign_tokens r
  obtain ⟨hss, e, he, hleft⟩ := hs
  obtain ⟨hus, e', he', hright⟩ := hu
  obtain ⟨hsaid, ht⟩ := hss.join hgap hus
  refine ⟨hsaid, .binary op e e', ?_, ?_⟩
  · rw [ht, hop]
    exact Sql.reads_condition he (Sql.follows_operator op he') fun _ _ => rfl
  · cases op with
    | or | and => cases hrel
    | _ =>
      simp only [expOf, hrel, hleft, hright]
      rfl

/-- Two expressions between brackets and a word between them. -/
theorem expText_logical {scope : Scope} {final : List V} {g : StdString} (op : Sql.Operator) {left right e : Exp V}
    {s u : StdString} (hg : Gap g) (ht : tokens g = [.closing, .operator op, .opening])
    (hop : ∀ l r, expOf final scope l = some left → expOf final scope r = some right →
      expOf final scope (.binary op l r) = some e)
    (hs : ExpText scope left s final) (hu : ExpText scope right u final) :
    ExpText scope e (text "(" ++ s ++ g ++ u ++ text ")") final := by
  obtain ⟨hss, l, hl, hleft⟩ := hs
  obtain ⟨hus, r, hr, hright⟩ := hu
  obtain ⟨hjoin, htjoin⟩ := hss.join hg hus
  obtain ⟨hsaid, htsaid⟩ := Lead.enclose (l := text "(") (c := text ")") ⟨by decide, by decide⟩ hjoin
    ⟨by decide, by decide⟩
  simp only [List.append_assoc] at hsaid htsaid htjoin ⊢
  refine ⟨hsaid, .binary op l r, ?_, hop l r hleft hright⟩
  have hread := Sql.reads_condition (Sql.operand_paren hl)
    (Sql.follows_operator op (Sql.operand_paren hr)) fun _ _ => rfl
  rw [htsaid, htjoin, ht]
  have hopening : tokens (text "(") = [.opening] := by decide
  have hclosing : tokens (text ")") = [.closing] := by decide
  rw [hopening, hclosing]
  simpa only [List.append_assoc, List.cons_append, List.nil_append] using hread

theorem expText_isNull {scope : Scope} {final : List V} {c : DatabaseColumn} {s : StdString}
    (h : ColumnText scope c s) : ExpText (V := V) scope (.isNull c) (text "(" ++ s ++ text " IS NULL )") final := by
  obtain ⟨hs, label, ht, hc⟩ := h
  obtain ⟨hsaid, htsaid⟩ := Lead.enclose (l := text "(") (c := text " IS NULL )") ⟨by decide, by decide⟩ hs
    ⟨by decide, by decide⟩
  refine ⟨hsaid, .isNull (.column label c.name), ?_, ?_⟩
  · have hread := Sql.reads_condition (Sql.operand_paren (Sql.reads_condition (Sql.operand_column label c.name)
      (Sql.follows_isNull _) fun _ _ => rfl)) (Sql.follows_nil _) fun _ hr => Sql.noDot_of_stops hr
    have hopening : tokens (text "(") = [.opening] := by decide
    have hend : tokens (text " IS NULL )") = [.keyword .is, .keyword .null, .closing] := by decide
    rw [htsaid, ht, hopening, hend]
    simpa only [List.append_assoc, List.cons_append, List.nil_append, List.append_nil] using hread
  · rw [expOf, hc]
    rfl

/-- A list between brackets, which may be empty. -/
theorem says_list {s g u : StdString} (hs : Says s) (hg : Gap g) (hu : u = [] ∨ Says u) :
    Says (s ++ g ++ u ++ text ")") ∧
      tokens (s ++ g ++ u ++ text ")") = tokens s ++ (tokens g ++ (tokens u ++ [.closing])) := by
  have hclosing : tokens (text ")") = [.closing] := by decide
  obtain ⟨hl, hlt⟩ := hs.gap hg
  rcases hu with rfl | hu
  · obtain ⟨hsaid, ht⟩ := hl.says (s := text ")") ⟨by decide, by decide⟩
    rw [List.append_nil]
    refine ⟨hsaid, ?_⟩
    rw [ht, hlt, hclosing, List.append_assoc]
    rfl
  · obtain ⟨hsaid, ht⟩ := hl.enclose hu (c := text ")") ⟨by decide, by decide⟩
    refine ⟨hsaid, ?_⟩
    rw [ht, hlt, hclosing, List.append_assoc]

theorem expText_in {scope : Scope} {final : List V} {c : DatabaseColumn} {g s u : StdString} {e : Exp V}
    (ast : Sql.Expr → Sql.Expr) (hg : Gap g) (h : ColumnText scope c s) (hu : u = [] ∨ Says u)
    (hf : ∀ e, Sql.Follows (tokens g ++ (tokens u ++ [.closing])) e (ast e))
    (hd : ∀ ts, noDot (tokens g ++ ts))
    (he : ∀ label, columnOf scope label c.name = some c →
      expOf final scope (ast (.column label c.name)) = some e) :
    ExpText scope e (s ++ g ++ u ++ text ")") final := by
  obtain ⟨hs, label, ht, hc⟩ := h
  obtain ⟨hsaid, hts⟩ := says_list hs hg hu
  refine ⟨hsaid, ast (.column label c.name), ?_, he label hc⟩
  rw [hts, ht]
  refine Sql.reads_condition (Sql.operand_column label c.name) (hf _) fun rest _ => ?_
  rw [List.append_assoc]
  exact hd _

/-! ### Queries -/

def SourcesText (scope : Scope) (src : Sources V) (s : StdString) (final : List V) : Prop :=
  ∃ body, s = text " FROM " ++ body ∧ Says body ∧ ∃ ast, ReadsSources (tokens body) ast ∧
    sourcesOf final src.selected.1 src.selected.2 scope ast = some src

def Reader.baseSource : Reader V → Sources V
  | .sources s _ => s
  | .where_ s _ _ => s

/-- The text of the condition of a query, if it has one. -/
def ConditionText (scope : Scope) : Reader V → StdString → List V → Prop
  | .sources .., s, _ => s = []
  | .where_ _ cond _, s, final => ∃ u, s = text " WHERE " ++ u ∧ ExpText scope cond u final

def Reader.final : Reader V → Final
  | .sources _ o => o
  | .where_ _ _ o => o

structure QueryText (scope : Scope) (r : Reader V) (s : StdString) (final : List V) : Prop where
  stands : Stands query 0 closes (readerOf final scope) r s
  select : ∃ ts, tokens s = .keyword .select :: ts

/-- The parts of a query, one behind the other. -/
theorem queryText {scope : Scope} {r : Reader V} {final : List V} {u v c w : StdString}
    (hu : Stands (separated term) 1 stops (List.mapM (selectedOf scope))
      (r.baseSource.selected.1 :: r.baseSource.selected.2) u)
    (hv : SourcesText scope r.baseSource v final) (hc : ConditionText scope r c final)
    (hw : TailText scope r.final w) :
    QueryText scope r (text "SELECT " ++ u ++ v ++ c ++ w) final := by
  obtain ⟨hus, terms, hterms, hcolumns⟩ := hu
  obtain ⟨body, rfl, hbody, s, hs, hsource⟩ := hv
  obtain ⟨hclause, l, hl, htail⟩ := hw
  have hselect : tokens (text "SELECT ") = [.keyword .select] := by decide
  have hfrom : tokens (text " FROM ") = [.keyword .from] := by decide
  have hwhere : tokens (text " WHERE ") = [.keyword .where] := by decide
  obtain ⟨hsu, htu⟩ := Lead.says (l := text "SELECT ") ⟨by decide, by decide⟩ hus
  obtain ⟨hsv, htv⟩ := hsu.join (g := text " FROM ") ⟨by decide, by decide, by decide⟩ hbody
  rw [← List.append_assoc _ (text " FROM ")]
  cases r with
  | sources src o =>
    cases hc
    obtain ⟨hsaid, ht⟩ := hsv.clause hclause
    rw [List.append_nil]
    rw [htv, htu, hselect, hfrom] at ht
    refine ⟨⟨hsaid, .all terms s l, ?_, ?_⟩, ?_⟩
    · rw [ht]
      simpa only [List.append_assoc, List.cons_append, List.nil_append] using Sql.query_all hterms hs hl
    · simp only [Reader.final] at htail
      simp only [readerOf, hcolumns]
      simp only [Reader.baseSource] at hsource ⊢
      rw [hsource, htail]
      rfl
    · rw [ht]
      exact ⟨_, rfl⟩
  | where_ src cond o =>
    obtain ⟨x, rfl, hx, e, he, hcond⟩ := hc
    obtain ⟨hsx, htx⟩ := hsv.join (g := text " WHERE ") ⟨by decide, by decide, by decide⟩ hx
    obtain ⟨hsaid, ht⟩ := hsx.clause hclause
    rw [← List.append_assoc _ (text " WHERE ")]
    rw [htx, htv, htu, hselect, hfrom, hwhere] at ht
    refine ⟨⟨hsaid, .filtered terms s e l, ?_, ?_⟩, ?_⟩
    · rw [ht]
      simpa only [List.append_assoc, List.cons_append, List.nil_append]
        using Sql.query_filtered hterms hs hl he
    · simp only [Reader.final] at htail
      simp only [readerOf, hcolumns]
      simp only [Reader.baseSource] at hsource ⊢
      rw [hsource, htail, hcond]
      rfl
    · rw [ht]
      exact ⟨_, rfl⟩

theorem expText_notIn {scope : Scope} {final : List V} {c : DatabaseColumn} {r : Reader V} {s q : StdString}
    (h : ColumnText scope c s) (hq : QueryText scope.inner r q final) :
    ExpText scope (.notIn c r) (s ++ text " NOT IN (" ++ q ++ text ")") final := by
  obtain ⟨⟨hqs, ast, hread, hr⟩, ts, hts⟩ := hq
  have hgap : tokens (text " NOT IN (") = [.keyword .not, .keyword .in, .opening] := by decide
  refine expText_in (fun e => .notInQuery e ast) ⟨by decide, by decide, by decide⟩ h (.inr hqs)
    (fun e => ?_) (fun ts => ?_) fun label hc => ?_
  · rw [hts] at hread ⊢
    rw [hgap]
    exact Sql.follows_notInQuery hread e
  · rw [hgap]
    rfl
  · rw [expOf, hc, hr]
    rfl

section Sources

variable {scope : Scope} {final : List V} {t : DatabaseTable} {label : StdString}

theorem says_table (ht : isName t.name) (hl : isName label) :
    Says (t.name ++ text " " ++ label) ∧ tokens (t.name ++ text " " ++ label) = [.name t.name, .name label] := by
  obtain ⟨hst, htt⟩ := Sql.says_name ht
  obtain ⟨hsl, htl⟩ := Sql.says_name hl
  have hspace : tokens (text " ") = [] := by decide
  obtain ⟨hsaid, htokens⟩ := hst.join (g := text " ") ⟨by decide, by decide, by decide⟩ hsl
  refine ⟨hsaid, ?_⟩
  rw [htokens, htt, htl, hspace]
  rfl

theorem sourcesText_select (ht : isName t.name) (hl : isName label) (hscope : scope label = some t)
    (c : Selected) (cs : List Selected) :
    SourcesText (V := V) scope (.select t c cs) (text " FROM " ++ t.name ++ text " " ++ label) final := by
  obtain ⟨hsaid, htokens⟩ := says_table ht hl
  refine ⟨_, ?_, hsaid, .table t.name label, ?_, ?_⟩
  · simp only [List.append_assoc]
  · rw [htokens]
    exact Sql.sources_table _ _
  · simp only [sourcesOf, hscope, Sources.selected]
    exact if_pos rfl

theorem joinStr_tokens {joinType : JoinT} (h : joinType ≠ .outer) :
    Gap joinType.joinStr ∧ ∃ kind, tokens joinType.joinStr = Sql.joinTokens kind ∧ joinOf kind = joinType := by
  cases joinType with
  | inner => exact ⟨⟨by decide, by decide, by decide⟩, .inner, by decide, rfl⟩
  | left => exact ⟨⟨by decide, by decide, by decide⟩, .left, by decide, rfl⟩
  | right => exact ⟨⟨by decide, by decide, by decide⟩, .right, by decide, rfl⟩
  | outer => exact absurd rfl h

theorem sourcesText_join {src : Sources V} {cond : Exp V} {joinType : JoinT} {s u : StdString}
    (hs : SourcesText scope src s final) (ht : isName t.name) (hl : isName label)
    (hscope : scope label = some t) (hu : ExpText scope cond u final) (hj : joinType ≠ .outer) :
    SourcesText scope (.join src t cond joinType)
      (s ++ joinType.joinStr ++ t.name ++ text " " ++ label ++ text " ON " ++ u) final := by
  obtain ⟨body, rfl, hbody, ast, hast, hsource⟩ := hs
  obtain ⟨hus, e, he, hcond⟩ := hu
  obtain ⟨hgap, kind, hkind, hof⟩ := joinStr_tokens hj
  obtain ⟨htable, httable⟩ := says_table ht hl
  have hon : tokens (text " ON ") = [.keyword .on] := by decide
  obtain ⟨h₁, t₁⟩ := hbody.join hgap htable
  obtain ⟨h₂, t₂⟩ := h₁.join (g := text " ON ") ⟨by decide, by decide, by decide⟩ hus
  refine ⟨_, ?_, h₂, .join ast kind t.name label e, ?_, ?_⟩
  · simp only [List.append_assoc]
  · rw [t₂, t₁, httable, hkind, hon]
    simpa only [List.append_assoc, List.cons_append, List.nil_append]
      using Sql.sources_join hast he kind t.name label
  · simp only [sourcesOf, Sources.selected, hsource, hscope, hcond, hof]
    exact if_pos rfl

end Sources

/-! ### Every expression of the builder -/

theorem Emits.bind {m : Emit V} {k : StdString → Emit V} {P : StdString → List V → Prop}
    {Q : StdString → StdString → List V → Prop} (h : Emits al m P) (hk : ∀ s, Emits al (k s) (Q s)) :
    Emits al (fun b => m b >>= fun x => k x.1 x.2) fun u final => ∃ s, P s final ∧ Q s u final := by
  intro b hb
  obtain ⟨s, b₁, h₁, hal₁, hpre₁, hP⟩ := h b hb
  obtain ⟨u, b₂, h₂, hal₂, hpre₂, hQ⟩ := hk s b₁ hal₁
  refine ⟨u, b₂, ?_, hal₂, hpre₁.trans hpre₂, fun final hf =>
    ⟨s, hP final (hpre₂.trans hf), hQ final hf⟩⟩
  simp only [h₁]
  exact h₂

theorem emits_inValues {scope : Scope} {c : DatabaseColumn} (h : ColumnBound al scope c) (values : List V) :
    Emits al (Exp.inValues c values).visit (ExpText scope (.inValues c values)) := by
  have hin : tokens (text " IN (") = [.keyword .in, .opening] := by decide
  have hk := fun s => (((emits_column (V := V) h).plus (emits_literal (text " IN ("))).plus
    (emits_literal s)).plus (emits_literal (text ")"))
  refine ((emits_addParameters values).bind hk).mono ?_
  rintro _ final ⟨u, ⟨hu, is, hlist, _, hvalues⟩, _, _, rfl, ⟨_, _, rfl, ⟨s, _, rfl, hs, rfl⟩, rfl⟩, rfl⟩
  refine expText_in (fun e => .inList false e is) ⟨by decide, by decide, by decide⟩ hs hu (fun e => ?_)
    (fun ts => ?_) fun label hc => ?_
  · rw [hin]
    exact Sql.follows_in hlist e
  · rw [hin]
    rfl
  · simp only [expOf, hc, hvalues]
    rfl

theorem emits_notInValues {scope : Scope} {c : DatabaseColumn} (h : ColumnBound al scope c) (values : List V) :
    Emits al (Exp.notInValues c values).visit (ExpText scope (.notInValues c values)) := by
  have hin : tokens (text " NOT IN (") = [.keyword .not, .keyword .in, .opening] := by decide
  have hk := fun s => (((emits_column (V := V) h).plus (emits_literal (text " NOT IN ("))).plus
    (emits_literal s)).plus (emits_literal (text ")"))
  refine ((emits_addParameters values).bind hk).mono ?_
  rintro _ final ⟨u, ⟨hu, is, hlist, hne, hvalues⟩, _, _, rfl, ⟨_, _, rfl, ⟨s, _, rfl, hs, rfl⟩, rfl⟩, rfl⟩
  refine expText_in (fun e => .inList true e is) ⟨by decide, by decide, by decide⟩ hs hu (fun e => ?_)
    (fun ts => ?_) fun label hc => ?_
  · rw [hin]
    exact Sql.follows_notIn hlist e hne
  · rw [hin]
    rfl
  · simp only [expOf, hc, hvalues]
    rfl

theorem Scope.inner_nil (scope : Scope) : scope.inner [] = none := if_pos rfl

theorem Scope.inner_inner (scope : Scope) : scope.inner.inner = scope.inner := by
  funext label
  by_cases h : label = []
  · rw [h, inner_nil, inner_nil]
  · rw [inner, if_neg h]

theorem TableBound.inner {scope : Scope} {t : DatabaseTable} (h : TableBound al scope t) :
    TableBound al scope.inner t := by
  obtain ⟨ht, label, hl, hscope, hname⟩ := h
  refine ⟨ht, label, hl, ?_, hname⟩
  rw [Scope.inner, if_neg]
  · exact hscope
  · rintro rfl
    cases hname

theorem emits_generateSelect {scope : Scope} {P Q : DatabaseColumn → Prop} {T : DatabaseTable → Prop}
    (hP : ∀ c, P c → ColumnBound al scope c) (src : Sources V) (h : src.Uses P Q T) :
    Emits al src.generateSelect fun s _ =>
      Stands (separated term) 1 stops (List.mapM (selectedOf scope)) (src.selected.1 :: src.selected.2) s := by
  match src with
  | .select t c cs =>
    have hone : ∀ x ∈ c :: cs, Emits (V := V) al x.visit fun s _ =>
        Stands term 0 itemStops (selectedOf scope) (id x) s := fun x hx =>
      (emits_selected hP x (h.2 x hx)).mono fun s _ ⟨hs, t, hr, ht⟩ => ⟨hs, t, Sql.reads_item hr, ht⟩
    have hcs := emits_generateColumns id hone
    rw [List.map_id] at hcs
    exact hcs
  | .join s t cond joinType => exact emits_generateSelect hP s h.1

theorem emits_readerSelect {scope : Scope} {P Q : DatabaseColumn → Prop} {T : DatabaseTable → Prop}
    (hP : ∀ c, P c → ColumnBound al scope c) (r : Reader V) (h : r.Uses P Q T) :
    Emits al r.generateSelect fun s _ => Stands (separated term) 1 stops (List.mapM (selectedOf scope))
      (r.baseSource.selected.1 :: r.baseSource.selected.2) s := by
  cases r with
  | sources s o => exact emits_generateSelect hP s h.1
  | where_ s cond o => exact emits_generateSelect hP s h.1

theorem emits_readerFinal {scope : Scope} {P Q : DatabaseColumn → Prop} {T : DatabaseTable → Prop}
    (hempty : scope [] = none) (hP : ∀ c, P c → ColumnBound al scope c) (r : Reader V) (h : r.Uses P Q T) :
    Emits al r.finalSql fun s _ => TailText scope r.final s := by
  cases r with
  | sources s o => exact emits_final hempty hP o h.2
  | where_ s cond o => exact emits_final hempty hP o h.2.2

mutual

theorem emits_exp {scope : Scope} {P Q : DatabaseColumn → Prop} {T : DatabaseTable → Prop}
    (hP : ∀ c, P c → ColumnBound al scope c) (hQ : ∀ c, Q c → ColumnBound al scope.inner c)
    (hT : ∀ t, T t → TableBound al scope t) (e : Exp V) (h : e.Uses P Q T) :
    Emits al e.visit (ExpText scope e) := by
  match e with
  | .compare relation left right =>
    refine (((emits_operand hP left h.1).plus (emits_literal relation.sign)).plus
      (emits_operand hP right h.2)).mono ?_
    rintro _ final ⟨_, u, rfl, ⟨s, _, rfl, hs, rfl⟩, hu⟩
    exact expText_compare hs hu
  | .logicalAnd left right =>
    refine (((((emits_literal (text "(")).plus (emits_exp hP hQ hT left h.1)).plus
      (emits_literal (text ") AND ("))).plus (emits_exp hP hQ hT right h.2)).plus
      (emits_literal (text ")"))).mono ?_
    rintro _ final ⟨_, _, rfl, ⟨_, u, rfl, ⟨_, _, rfl, ⟨_, s, rfl, rfl, hs⟩, rfl⟩, hu⟩, rfl⟩
    refine expText_logical .and ⟨by decide, by decide, by decide⟩ (by decide) (fun l r hl hr => ?_) hs hu
    rw [expOf, hl, hr]
    rfl
  | .logicalOr left right =>
    refine (((((emits_literal (text "(")).plus (emits_exp hP hQ hT left h.1)).plus
      (emits_literal (text ") OR ("))).plus (emits_exp hP hQ hT right h.2)).plus
      (emits_literal (text ")"))).mono ?_
    rintro _ final ⟨_, _, rfl, ⟨_, u, rfl, ⟨_, _, rfl, ⟨_, s, rfl, rfl, hs⟩, rfl⟩, hu⟩, rfl⟩
    refine expText_logical .or ⟨by decide, by decide, by decide⟩ (by decide) (fun l r hl hr => ?_) hs hu
    rw [expOf, hl, hr]
    rfl
  | .notIn left right =>
    have hQQ : ∀ c, Q c → ColumnBound al scope.inner.inner c := by
      rw [Scope.inner_inner]
      exact hQ
    have hTT : ∀ t, T t → TableBound al scope.inner t := fun t ht => (hT t ht).inner
    obtain ⟨hsources, hcondition⟩ := emits_reader hQ hQQ hTT right h.2
    have hselect := emits_readerSelect hQ right h.2
    have hfinal := emits_readerFinal scope.inner_nil hQ right h.2
    refine ((((((((emits_column (hP left h.1)).plus (emits_literal (text " NOT IN ("))).plus
      ((emits_literal []).plus (emits_literal (text "SELECT ")))).plus hselect).plus hsources).plus
      hcondition).plus hfinal).plus (emits_literal (text ")"))).mono ?_
    rintro _ final ⟨_, _, rfl, ⟨_, w, rfl, ⟨_, c, rfl, ⟨_, v, rfl, ⟨_, u, rfl, ⟨_, _, rfl, ⟨s, _, rfl, hs,
      rfl⟩, _, _, rfl, rfl, rfl⟩, hu⟩, hv⟩, hc⟩, hw⟩, rfl⟩
    have htext := expText_notIn hs (queryText hu hv hc hw)
    simpa only [List.append_assoc, List.nil_append] using htext
  | .notInValues left values => exact emits_notInValues (hP left h) values
  | .inValues left values => exact emits_inValues (hP left h) values
  | .isNull left =>
    refine (((emits_literal (text "(")).plus (emits_column (hP left h))).plus
      (emits_literal (text " IS NULL )"))).mono ?_
    rintro _ final ⟨_, _, rfl, ⟨_, s, rfl, rfl, hs⟩, rfl⟩
    exact expText_isNull hs

theorem emits_sources {scope : Scope} {P Q : DatabaseColumn → Prop} {T : DatabaseTable → Prop}
    (hP : ∀ c, P c → ColumnBound al scope c) (hQ : ∀ c, Q c → ColumnBound al scope.inner c)
    (hT : ∀ t, T t → TableBound al scope t) (src : Sources V) (h : src.Uses P Q T) :
    Emits al src.collectSources (SourcesText scope src) := by
  match src with
  | .select t c cs =>
    obtain ⟨ht, label, hlookup, hscope, hl⟩ := hT t h.1
    refine ((((emits_literal (text " FROM ")).plus (emits_literal t.name)).plus
      (emits_literal (text " "))).plus (emits_getAlias hlookup)).mono ?_
    rintro _ final ⟨_, _, rfl, ⟨_, _, rfl, ⟨_, _, rfl, rfl, rfl⟩, rfl⟩, rfl⟩
    exact sourcesText_select ht hl hscope c cs
  | .join s t cond joinType =>
    obtain ⟨ht, label, hlookup, hscope, hl⟩ := hT t h.2.1
    refine (((((((emits_sources hP hQ hT s h.1).plus (emits_literal joinType.joinStr)).plus
      (emits_literal t.name)).plus (emits_literal (text " "))).plus (emits_getAlias hlookup)).plus
      (emits_literal (text " ON "))).plus (emits_exp hP hQ hT cond h.2.2.1)).mono ?_
    rintro _ final ⟨_, u, rfl, ⟨_, _, rfl, ⟨_, _, rfl, ⟨_, _, rfl, ⟨_, _, rfl, ⟨v, _, rfl, hv, rfl⟩, rfl⟩,
      rfl⟩, rfl⟩, rfl⟩, hu⟩
    exact sourcesText_join hv ht hl hscope hu h.2.2.2

theorem emits_reader {scope : Scope} {P Q : DatabaseColumn → Prop} {T : DatabaseTable → Prop}
    (hP : ∀ c, P c → ColumnBound al scope c) (hQ : ∀ c, Q c → ColumnBound al scope.inner c)
    (hT : ∀ t, T t → TableBound al scope t) (r : Reader V) (h : r.Uses P Q T) :
    Emits al r.collectSources (SourcesText scope r.baseSource) ∧
      Emits al r.collectCondition (ConditionText scope r) := by
  match r with
  | .sources s o =>
    exact ⟨emits_sources hP hQ hT s h.1, (emits_literal []).mono fun _ _ hs => hs⟩
  | .where_ s cond o =>
    refine ⟨emits_sources hP hQ hT s h.1,
      ((emits_literal (text " WHERE ")).plus (emits_exp hP hQ hT cond h.2.1)).mono ?_⟩
    rintro _ final ⟨_, u, rfl, rfl, hu⟩
    exact ⟨u, rfl, hu⟩

end

end Vds.Orm
