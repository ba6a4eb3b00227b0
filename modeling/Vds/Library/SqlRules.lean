import Vds.Library.SqlGrammar

/-! The rules of the reader of SQL: what it makes of a text whose parts it reads. -/

namespace Vds.Library.Sql

/-! ### Where a part ends -/

/-- A part of a query ends before these. -/
def stops : List Token → Bool
  | [] => true
  | .closing :: _ => true
  | .keyword k :: _ => k ∈ [.from, .where, .order, .group, .inner, .left, .right]
  | _ => false

def itemStops : List Token → Bool
  | .comma :: _ => true
  | ts => stops ts

def noCall : List Token → Bool
  | .opening :: _ => false
  | .dot :: _ => false
  | _ => true

/-- A query ends before these. -/
def closes : List Token → Bool
  | [] => true
  | .closing :: _ => true
  | _ => false

/-- The reader takes the tokens as `a`, whatever stands behind them that satisfies `ok`. -/
def Reads {A : Type} (p : Reader A) (k : Nat) (ok : List Token → Bool) (ts : List Token) (a : A) : Prop :=
  ∀ rest n, ok rest → 2 * (ts ++ rest).length + k ≤ n → p n (ts ++ rest) = some (a, rest)

theorem itemStops_of_stops {ts : List Token} (h : stops ts) : itemStops ts := by
  unfold itemStops
  split
  · rfl
  · exact h

theorem noCall_of_itemStops {ts : List Token} (h : itemStops ts) : noCall ts := by
  cases ts with
  | nil => rfl
  | cons t ts =>
    cases t with
    | opening | dot => cases h
    | _ => rfl

theorem stops_of_closes {ts : List Token} (h : closes ts) : stops ts := by
  cases ts with
  | nil => rfl
  | cons t ts =>
    cases t with
    | closing => rfl
    | _ => cases h

section Lists

variable {A : Type} {p : Reader A} {k : Nat} {ts us : List Token} {a : A} {as : List A}

theorem reads_name (w : Text) : Reads name 0 itemStops [.name w] w := fun _ _ _ _ => rfl

theorem reads_parameter (n : Nat) : Reads parameter 0 itemStops [.parameter n] n := fun _ _ _ _ => rfl

theorem reads_setter (w : Text) (n : Nat) :
    Reads setter 0 itemStops [.name w, .operator .equal, .parameter n] (w, n) := fun _ _ _ _ => rfl

theorem reads_separated_single (h : Reads p 0 itemStops ts a) : Reads (separated p) 1 stops ts [a] := by
  intro rest n hr hn
  cases n with
  | zero => omega
  | succ n =>
    have hp := h rest n (itemStops_of_stops hr) (by omega)
    rw [separated, hp]
    cases rest with
    | nil => rfl
    | cons t rest =>
      cases t with
      | comma => cases hr
      | _ => rfl

theorem reads_separated_cons (h : Reads p 0 itemStops ts a) (hs : Reads (separated p) 1 stops us as) :
    Reads (separated p) 1 stops (ts ++ .comma :: us) (a :: as) := by
  intro rest n hr hn
  simp only [List.append_assoc, List.cons_append, List.length_append, List.length_cons] at hn ⊢
  cases n with
  | zero => omega
  | succ n =>
    have hp := h (.comma :: (us ++ rest)) n rfl (by
      simp only [List.length_append, List.length_cons]
      omega)
    have hps := hs rest n hr (by
      simp only [List.length_append]
      omega)
    simp only [separated, hp, hps]

end Lists

/-! #### Terms -/

def columnTokens (q c : Text) : List Token := if q = [] then [.name c] else [.name q, .dot, .name c]

theorem columnTokens_eq (q c : Text) :
    (q = [] ∧ columnTokens q c = [.name c]) ∨ columnTokens q c = [.name q, .dot, .name c] := by
  unfold columnTokens
  split_ifs with h
  · exact .inl ⟨h, rfl⟩
  · exact .inr rfl

theorem reads_column (q c : Text) : Reads term 0 noCall (columnTokens q c) (.column q c) := by
  intro rest n hr hn
  rcases columnTokens_eq q c with ⟨rfl, h⟩ | h <;> rw [h] at hn ⊢ <;> cases n with
  | zero => simp at hn
  | succ n => _
  · cases rest with
    | nil => rfl
    | cons t rest =>
      cases t with
      | opening | dot => cases hr
      | _ => rfl
  · rfl

theorem reads_call {f : Text} {ts : List Token} {t : Term} (h : Reads term 0 noCall ts t) :
    Reads term 0 noCall (.name f :: .opening :: ts ++ [.closing]) (.call f t) := by
  intro rest n hr hn
  simp only [List.append_assoc, List.cons_append, List.nil_append, List.length_append,
    List.length_cons] at hn ⊢
  cases n with
  | zero => omega
  | succ n =>
    have ht := h (.closing :: rest) n rfl (by
      simp only [List.length_append, List.length_cons]
      omega)
    simp only [term, ht]

theorem reads_item {ts : List Token} {t : Term} (h : Reads term 0 noCall ts t) :
    Reads term 0 itemStops ts t := fun rest n hr => h rest n (noCall_of_itemStops hr)

theorem reads_ascending {ts : List Token} {t : Term} (h : Reads term 0 noCall ts t) :
    Reads orderTerm 0 itemStops ts ⟨t, false⟩ := by
  intro rest n hr hn
  rw [orderTerm, h rest n (noCall_of_itemStops hr) hn]
  cases rest with
  | nil => rfl
  | cons t rest =>
    cases t with
    | keyword k => cases k <;> first | rfl | cases hr
    | _ => rfl

theorem reads_descending {ts : List Token} {t : Term} (h : Reads term 0 noCall ts t) :
    Reads orderTerm 0 itemStops (ts ++ [.keyword .desc]) ⟨t, true⟩ := by
  intro rest n _ hn
  rw [List.append_assoc, List.singleton_append] at hn ⊢
  rw [orderTerm, h (.keyword .desc :: rest) n rfl hn]

/-- What ends a list of columns begins no join and no condition. -/
def tailStops : List Token → Bool
  | .keyword k :: _ => k ∈ [.order, .group]
  | ts => closes ts

/-! #### Expressions -/

theorem operators_of_stops {n p : Nat} {e : Expr} {rest : List Token} (h : stops rest) :
    operators (n + 1) p e rest = some (e, rest) := by
  cases rest with
  | nil => rfl
  | cons t rest =>
    cases t with
    | operator => cases h
    | keyword k => cases k <;> first | rfl | cases h
    | _ => rfl

def noDot : List Token → Bool
  | .dot :: _ => false
  | _ => true

theorem noDot_of_stops {ts : List Token} (h : stops ts) : noDot ts := by
  cases ts with
  | nil => rfl
  | cons t ts =>
    cases t with
    | dot => cases h
    | _ => rfl

abbrev condition : Reader Expr := fun n => expr n 1

theorem operand_column (q c : Text) : Reads operand 0 noDot (columnTokens q c) (.column q c) := by
  intro rest n hr hn
  rcases columnTokens_eq q c with ⟨rfl, h⟩ | h <;> rw [h] at hn ⊢ <;> cases n with
  | zero => simp at hn
  | succ n => _
  · cases rest with
    | nil => rfl
    | cons t rest =>
      cases t with
      | dot => cases hr
      | _ => rfl
  · rfl

theorem operand_parameter (i : Nat) : Reads operand 0 noDot [.parameter i] (.parameter i) := by
  intro rest n hr hn
  cases n with
  | zero => simp at hn
  | succ n => rfl

theorem operand_paren {ts : List Token} {e : Expr} (h : Reads condition 1 stops ts e) :
    Reads operand 0 noDot (.opening :: ts ++ [.closing]) e := by
  intro rest n hr hn
  simp only [List.append_assoc, List.cons_append, List.nil_append, List.length_append,
    List.length_cons] at hn ⊢
  cases n with
  | zero => omega
  | succ n =>
    have he : expr n 1 (ts ++ .closing :: rest) = some (e, .closing :: rest) :=
      h (.closing :: rest) n rfl (by
        simp only [List.length_append, List.length_cons]
        omega)
    simp only [operand, he]

/-- An operand with no operator behind it. -/
theorem expr_operand {ts : List Token} {e : Expr} (h : Reads operand 0 noDot ts e) {p n : Nat} {rest : List Token}
    (hr : stops rest) (hn : 2 * (ts ++ rest).length + 1 ≤ n) (hts : ts ≠ []) :
    expr n p (ts ++ rest) = some (e, rest) := by
  have hpos := List.length_pos_iff.mpr hts
  rw [List.length_append] at hn
  cases n with
  | zero => omega
  | succ n =>
    have he := h rest n (noDot_of_stops hr) (by
      rw [List.length_append]
      omega)
    rw [expr, he]
    cases n with
    | zero => omega
    | succ n => exact operators_of_stops hr

theorem operand_ne_nil {ts : List Token} {e : Expr} (h : Reads operand 0 noDot ts e) : ts ≠ [] := by
  rintro rfl
  cases h [] 0 rfl (Nat.le_refl 0)

/-- With the tokens behind it the expression `e` becomes `e'`. -/
def Follows (ts : List Token) (e e' : Expr) : Prop :=
  ∀ rest n, stops rest → 2 * (ts ++ rest).length + 1 ≤ n → operators n 1 e (ts ++ rest) = some (e', rest)

theorem follows_nil (e : Expr) : Follows [] e e := by
  intro rest n hr hn
  cases n with
  | zero => omega
  | succ n => exact operators_of_stops hr

theorem reads_condition {ts us : List Token} {e e' : Expr} (h : Reads operand 0 noDot ts e)
    (hf : Follows us e e') (hd : ∀ rest, stops rest → noDot (us ++ rest)) :
    Reads condition 1 stops (ts ++ us) e' := by
  intro rest n hr hn
  have hpos := List.length_pos_iff.mpr (operand_ne_nil h)
  rw [List.append_assoc] at hn ⊢
  rw [List.length_append] at hn
  cases n with
  | zero => omega
  | succ n =>
    have he := h (us ++ rest) n (hd rest hr) (by
      rw [List.length_append]
      omega)
    rw [condition, expr, he]
    exact hf rest n hr (by omega)

theorem follows_operator (op : Operator) {us : List Token} {l r : Expr} (h : Reads operand 0 noDot us r) :
    Follows (.operator op :: us) l (.binary op l r) := by
  intro rest n hr hn
  rw [List.cons_append, List.length_cons] at hn
  cases n with
  | zero => omega
  | succ n =>
    have hop : 1 ≤ op.precedence := by cases op <;> decide
    have hright : expr n (op.precedence + 1) (us ++ rest) = some (r, rest) :=
      expr_operand h hr (by omega) (operand_ne_nil h)
    rw [List.cons_append, operators, if_pos hop, hright]
    exact follows_nil _ rest n hr (by
      rw [List.length_append] at hn
      rw [List.nil_append]
      omega)

theorem follows_isNull (e : Expr) : Follows [.keyword .is, .keyword .null] e (.isNull e) := by
  intro rest n hr hn
  rw [List.length_append, List.length_cons] at hn
  cases n with
  | zero => omega
  | succ n => exact follows_nil (.isNull e) rest n hr (by
      rw [List.nil_append]
      omega)

theorem list_nil : Reads list 1 (fun _ => true) [.closing] [] := fun _ _ _ _ => rfl

theorem list_of_separated {ts : List Token} {ps : List Nat} (h : Reads (separated parameter) 1 stops ts ps) :
    Reads list 1 (fun _ => true) (ts ++ [.closing]) ps ∧ ∃ i us, ts = .parameter i :: us := by
  have hfirst : ∃ i us, ts = .parameter i :: us := by
    have hs := h [] (2 * (ts ++ []).length + 1) rfl (Nat.le_refl _)
    cases ts with
    | nil => cases hs
    | cons t ts =>
      cases t with
      | parameter i => exact ⟨i, ts, rfl⟩
      | _ => cases hs
  refine ⟨?_, hfirst⟩
  obtain ⟨i, us, rfl⟩ := hfirst
  intro rest n _ hn
  have hs := h (.closing :: rest) n rfl (by simpa using hn)
  rw [List.append_assoc, List.singleton_append]
  rw [List.cons_append] at hs ⊢
  rw [list, hs]
  intro rest heq
  cases heq

section InList

variable {ts : List Token} {ps : List Nat} (h : Reads list 1 (fun _ => true) ts ps)
include h

theorem follows_in (e : Expr) : Follows (.keyword .in :: .opening :: ts) e (.inList false e ps) := by
  intro rest n hr hn
  rw [List.cons_append, List.cons_append, List.length_cons, List.length_cons, List.length_append] at hn
  cases n with
  | zero => omega
  | succ n =>
    have hl := h rest n rfl (by
      rw [List.length_append]
      omega)
    rw [List.cons_append, List.cons_append, operators, if_pos (by decide), hl]
    exact follows_nil _ rest n hr (by
      rw [List.nil_append]
      omega)

theorem follows_notIn (e : Expr) (hs : ∀ us, ts ≠ .keyword .select :: us) :
    Follows (.keyword .not :: .keyword .in :: .opening :: ts) e (.inList true e ps) := by
  intro rest n hr hn
  rw [List.cons_append, List.cons_append, List.cons_append, List.length_cons, List.length_cons,
    List.length_cons, List.length_append] at hn
  cases n with
  | zero => omega
  | succ n =>
    have hl := h rest n rfl (by
      rw [List.length_append]
      omega)
    have hne : ts ≠ [] := by
      rintro rfl
      cases h [] 1 rfl (Nat.le_refl 1)
    rw [List.cons_append, List.cons_append, List.cons_append, operators, if_pos (by decide), hl]
    · exact follows_nil _ rest n hr (by
        rw [List.nil_append]
        omega)
    · intro us heq
      obtain ⟨t, ts, rfl⟩ := List.exists_cons_of_ne_nil hne
      rw [List.cons_append, List.cons.injEq] at heq
      exact hs ts (by rw [heq.1])

end InList

theorem follows_notInQuery {ts : List Token} {q : Query}
    (h : Reads query 0 closes (.keyword .select :: ts) q) (e : Expr) :
    Follows (.keyword .not :: .keyword .in :: .opening :: .keyword .select :: ts ++ [.closing]) e
      (.notInQuery e q) := by
  intro rest n hr hn
  simp only [List.append_assoc, List.cons_append, List.nil_append, List.length_append,
    List.length_cons] at hn ⊢
  cases n with
  | zero => omega
  | succ n =>
    have hq := h (.closing :: rest) n rfl (by
      simp only [List.cons_append, List.length_append, List.length_cons]
      omega)
    rw [List.cons_append] at hq
    rw [operators, if_pos (by decide), hq]
    exact follows_nil _ rest n hr (by
      rw [List.nil_append]
      omega)

/-! #### Queries -/

/-- The end of a query: no join and no condition comes behind the tokens before it. -/
structure ReadsTail (ts : List Token) (l : Tail) : Prop where
  reads : Reads tail 1 closes ts l
  begins : ∀ rest, closes rest → tailStops (ts ++ rest)

theorem tail_none : ReadsTail [] .none where
  reads rest n hr _ := by
    cases rest with
    | nil => rfl
    | cons t rest =>
      cases t with
      | closing => rfl
      | _ => cases hr
  begins rest hr := by
    cases rest with
    | nil => rfl
    | cons t rest =>
      cases t with
      | closing => rfl
      | _ => cases hr

section Tail

variable {ts : List Token} {terms : List OrderTerm} (h : Reads (separated orderTerm) 1 stops ts terms)
include h

theorem tail_orderBy : ReadsTail (.keyword .order :: .keyword .by :: ts) (.orderBy terms) where
  reads rest n hr hn := by
    rw [List.cons_append, List.cons_append, List.length_cons, List.length_cons] at hn
    rw [List.cons_append, List.cons_append, tail, h rest n (stops_of_closes hr) (by omega)]
  begins _ _ := rfl

theorem tail_groupBy : ReadsTail (.keyword .group :: .keyword .by :: ts) (.groupBy terms) where
  reads rest n hr hn := by
    rw [List.cons_append, List.cons_append, List.length_cons, List.length_cons] at hn
    rw [List.cons_append, List.cons_append, tail, h rest n (stops_of_closes hr) (by omega)]
  begins _ _ := rfl

end Tail

theorem stops_of_tailStops {ts : List Token} (h : tailStops ts) : stops ts := by
  cases ts with
  | nil => rfl
  | cons t ts =>
    cases t with
    | closing => rfl
    | keyword k => cases k <;> first | rfl | cases h
    | _ => cases h

theorem joinKind_of_tailStops {ts : List Token} (h : tailStops ts) : joinKind ts = none := by
  cases ts with
  | nil => rfl
  | cons t ts =>
    cases t with
    | closing => rfl
    | keyword k => cases k <;> first | rfl | cases h
    | _ => cases h

/-- The tokens behind `FROM` take the reader to its loop over the joins. -/
def ReadsSources (ts : List Token) (s : Sources) : Prop :=
  ∃ t a us, ts = .name t :: .name a :: us ∧
    ∀ rest n, stops rest → 2 * (us ++ rest).length + 1 ≤ n →
      ∃ m, 2 * rest.length + 1 ≤ m ∧ joins n (.table t a) (us ++ rest) = joins m s rest

theorem sources_table (t a : Text) : ReadsSources [.name t, .name a] (.table t a) :=
  ⟨t, a, [], rfl, fun _ n _ hn => ⟨n, hn, rfl⟩⟩

def joinTokens : JoinKind → List Token
  | .inner => [.keyword .inner, .keyword .join]
  | .left => [.keyword .left, .keyword .outer, .keyword .join]
  | .right => [.keyword .right, .keyword .outer, .keyword .join]

theorem joinKind_joinTokens (kind : JoinKind) (rest : List Token) :
    joinKind (joinTokens kind ++ rest) = some (kind, rest) := by cases kind <;> rfl

theorem stops_joinTokens (kind : JoinKind) (rest : List Token) : stops (joinTokens kind ++ rest) := by
  cases kind <;> rfl

theorem sources_join {ts us : List Token} {s : Sources} {e : Expr} (hs : ReadsSources ts s)
    (h : Reads condition 1 stops us e) (kind : JoinKind) (t a : Text) :
    ReadsSources (ts ++ (joinTokens kind ++ .name t :: .name a :: .keyword .on :: us))
      (.join s kind t a e) := by
  obtain ⟨t₀, a₀, vs, rfl, hs⟩ := hs
  refine ⟨t₀, a₀, vs ++ (joinTokens kind ++ .name t :: .name a :: .keyword .on :: us), rfl, ?_⟩
  intro rest n hr hn
  simp only [List.append_assoc, List.cons_append] at hn ⊢
  obtain ⟨m, hm, hj⟩ := hs _ n (stops_joinTokens kind _) hn
  rw [hj]
  simp only [List.length_append, List.length_cons] at hm
  cases m with
  | zero => omega
  | succ m =>
    have he : expr m 1 (us ++ rest) = some (e, rest) := h rest m hr (by
      rw [List.length_append]
      omega)
    refine ⟨m, by omega, ?_⟩
    rw [joins, joinKind_joinTokens]
    simp only [he]

theorem joins_of_tailStops {n : Nat} {s : Sources} {ts : List Token} (h : tailStops ts) :
    joins (n + 1) s ts = some (s, ts) := by
  rw [joins, joinKind_of_tailStops h]

section Query

variable {cs ss ls : List Token} {columns : List Term} {s : Sources} {l : Tail}
  (hc : Reads (separated term) 1 stops cs columns) (hs : ReadsSources ss s) (hl : ReadsTail ls l)
include hc hs hl

theorem query_all :
    Reads query 0 closes (.keyword .select :: cs ++ .keyword .from :: (ss ++ ls)) (.all columns s l) := by
  obtain ⟨t, a, us, rfl, hs⟩ := hs
  intro rest n hr hn
  simp only [List.append_assoc, List.cons_append, List.length_append, List.length_cons] at hn ⊢
  cases n with
  | zero => omega
  | succ n =>
    have hcs := hc (.keyword .from :: .name t :: .name a :: (us ++ (ls ++ rest))) n rfl (by
      simp only [List.length_append, List.length_cons]
      omega)
    have htail := hl.begins rest hr
    obtain ⟨m, hm, hj⟩ := hs (ls ++ rest) n (stops_of_tailStops htail) (by
      simp only [List.length_append]
      omega)
    have hls := hl.reads rest n hr (by
      rw [List.length_append]
      omega)
    rw [query, hcs]
    cases m with
    | zero => omega
    | succ m =>
      rw [joins_of_tailStops htail] at hj
      simp only [hj]
      generalize ls ++ rest = ts at htail hls
      cases ts with
      | nil => simp only [hls]
      | cons t ts =>
        cases t with
        | keyword k =>
          cases k with
          | «where» => cases htail
          | _ => simp only [hls]
        | _ => simp only [hls]

theorem query_filtered {es : List Token} {e : Expr} (he : Reads condition 1 stops es e) :
    Reads query 0 closes
      (.keyword .select :: cs ++ .keyword .from :: (ss ++ .keyword .where :: (es ++ ls)))
      (.filtered columns s e l) := by
  obtain ⟨t, a, us, rfl, hs⟩ := hs
  intro rest n hr hn
  simp only [List.append_assoc, List.cons_append, List.length_append, List.length_cons] at hn ⊢
  cases n with
  | zero => omega
  | succ n =>
    have hcs := hc (.keyword .from :: .name t :: .name a :: (us ++ .keyword .where :: (es ++ (ls ++ rest)))) n
      rfl (by
        simp only [List.length_append, List.length_cons]
        omega)
    obtain ⟨m, hm, hj⟩ := hs (.keyword .where :: (es ++ (ls ++ rest))) n rfl (by
      simp only [List.length_append, List.length_cons]
      omega)
    have hes : expr n 1 (es ++ (ls ++ rest)) = some (e, ls ++ rest) :=
      he _ n (stops_of_tailStops (hl.begins rest hr)) (by
        simp only [List.length_append]
        omega)
    have hls := hl.reads rest n hr (by
      rw [List.length_append]
      omega)
    rw [query, hcs]
    cases m with
    | zero => omega
    | succ m =>
      have hw : joins (m + 1) s (.keyword .where :: (es ++ (ls ++ rest))) =
          some (s, .keyword .where :: (es ++ (ls ++ rest))) := rfl
      rw [hw] at hj
      simp only [hj, hes, hls]

end Query

/-! #### Statements -/

theorem statement_query {ts : List Token} {q : Query} (h : Reads query 0 closes (.keyword .select :: ts) q) :
    statement (.keyword .select :: ts) = some (.query q) := by
  have hq := h [] (2 * (.keyword .select :: ts : List Token).length + 1) rfl (by simp)
  rw [List.append_nil] at hq
  rw [statement, statementFrom, hq]

theorem statement_delete {ts : List Token} {e : Expr} (h : Reads condition 1 stops ts e) (t : Text) :
    statement (.keyword .delete :: .keyword .from :: .name t :: .keyword .where :: ts) =
      some (.delete t e) := by
  have he := h [] (2 * (.keyword .delete :: .keyword .from :: .name t :: .keyword .where :: ts :
    List Token).length + 1) rfl (by
      simp only [List.append_nil, List.length_cons]
      omega)
  rw [List.append_nil] at he
  rw [statement, statementFrom]
  simp only [condition] at he
  simp only [he]

section Update

variable {ts : List Token} {setters : List (Text × Nat)} (h : Reads (separated setter) 1 stops ts setters)
include h

theorem statement_update (t : Text) :
    statement (.keyword .update :: .name t :: .keyword .set :: ts) = some (.update t setters none) := by
  have hs := h [] (2 * (.keyword .update :: .name t :: .keyword .set :: ts : List Token).length + 1) rfl (by
    simp only [List.append_nil, List.length_cons]
    omega)
  rw [List.append_nil] at hs
  rw [statement, statementFrom, hs]

theorem statement_update_where {es : List Token} {e : Expr} (he : Reads condition 1 stops es e) (t : Text) :
    statement (.keyword .update :: .name t :: .keyword .set :: (ts ++ .keyword .where :: es)) =
      some (.update t setters (some e)) := by
  have hs := h (.keyword .where :: es)
    (2 * (.keyword .update :: .name t :: .keyword .set :: (ts ++ .keyword .where :: es) :
      List Token).length + 1) rfl (by
        simp only [List.length_cons]
        omega)
  have hes := he [] (2 * (.keyword .update :: .name t :: .keyword .set :: (ts ++ .keyword .where :: es) :
      List Token).length + 1) rfl (by
        simp only [List.append_nil, List.length_cons, List.length_append]
        omega)
  rw [List.append_nil] at hes
  rw [statement, statementFrom, hs]
  simp only [condition] at hes
  simp only [hes]

end Update

def verbTokens : InsertVerb → List Token
  | .insert => [.keyword .insert]
  | .insertOrIgnore => [.keyword .insert, .operator .or, .keyword .ignore]
  | .replace => [.keyword .replace]

theorem statementFrom_verb (n : Nat) (v : InsertVerb) (t : Text) (ts : List Token) :
    statementFrom n (verbTokens v ++ .keyword .into :: .name t :: .opening :: ts) = insertion n v t ts := by
  cases v <;> rfl

section Insert

variable {cs : List Token} {columns : List Text} (hc : Reads (separated name) 1 stops cs columns)
include hc

theorem statement_insert {ps : List Token} {parameters : List Nat}
    (hp : Reads (separated parameter) 1 stops ps parameters) (v : InsertVerb) (t : Text) :
    statement (verbTokens v ++ .keyword .into :: .name t :: .opening ::
        (cs ++ .closing :: .keyword .values :: .opening :: (ps ++ [.closing]))) =
      some (.insert v t columns parameters) := by
  rw [statement, statementFrom_verb, insertion]
  simp only [List.length_append, List.length_cons, List.length_nil]
  generalize hn : 2 * _ + 1 = n
  rw [hc _ n rfl (by
    simp only [List.length_append, List.length_cons, List.length_nil]
    omega)]
  simp only
  rw [hp _ n rfl (by
    simp only [List.length_append, List.length_cons, List.length_nil]
    omega)]

theorem statement_insertFrom {ts : List Token} {q : Query}
    (hq : Reads query 0 closes (.keyword .select :: ts) q) (t : Text) :
    statement (.keyword .insert :: .keyword .into :: .name t :: .opening ::
        (cs ++ .closing :: .keyword .select :: ts)) =
      some (.insertFrom t columns q) := by
  rw [statement]
  change insertion _ .insert t _ = _
  rw [insertion]
  simp only [List.length_append, List.length_cons]
  generalize hn : 2 * _ + 1 = n
  rw [hc _ n rfl (by
    simp only [List.length_append, List.length_cons]
    omega)]
  have hs := hq [] n rfl (by
    simp only [List.append_nil, List.length_cons]
    omega)
  rw [List.append_nil] at hs
  simp only [hs]

end Insert

end Vds.Library.Sql
