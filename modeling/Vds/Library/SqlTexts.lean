import Vds.Library.SqlRules

/-! The tokens of a text that is put together of parts: which parts may stand side by side. -/

namespace Vds.Library.Sql

/-! ### The ends of a part -/

/-- No symbol goes on with the token but a letter or a digit. -/
def Lexeme.closed : Lexeme → Bool
  | .symbol s => s ≠ [0x3C] && s ≠ [0x3E]
  | _ => true

/-- Only the signs of a relation go on with the token. -/
def Lexeme.opens : Lexeme → Bool
  | .symbol _ => true
  | _ => false

def Closed (s : Text) : Prop := (lexer.opened s).all Lexeme.closed

def Opens (s : Text) : Prop := (lexer.opened s).all Lexeme.opens

def Soft (s : Text) : Prop := s.head?.all fun c => !isWord c

def Hard (s : Text) : Prop := s.head?.any fun c => c ≠ 0x3D && c ≠ 0x3E

instance (s : Text) : Decidable (Closed s) := inferInstanceAs (Decidable (_ = true))
instance (s : Text) : Decidable (Opens s) := inferInstanceAs (Decidable (_ = true))
instance (s : Text) : Decidable (Soft s) := inferInstanceAs (Decidable (_ = true))
instance (s : Text) : Decidable (Hard s) := inferInstanceAs (Decidable (_ = true))

theorem Hard.ne_nil {s : Text} (h : Hard s) : s ≠ [] := by
  rintro rfl
  cases h

theorem isWord_of_isDigit {c : UInt8} (h : isDigit c) : isWord c := by
  rw [isWord, h, Bool.or_true]

theorem apart_of_soft {s u : Text} (hs : Closed s) (hu : Soft u) : lexer.Apart s u := by
  intro t ht c hc
  have hclosed : t.closed = true := by
    rw [Closed, Option.all_eq_true] at hs
    exact hs t ht
  have hword : isWord c = false := by
    rw [Soft, Option.all_eq_true] at hu
    simpa using hu c hc
  cases t with
  | word w => exact if_neg (by rw [hword]; decide)
  | parameter n =>
    refine if_neg fun hdigit => ?_
    rw [isWord_of_isDigit hdigit] at hword
    cases hword
  | symbol s =>
    rw [Lexeme.closed, Bool.and_eq_true, decide_eq_true_eq, decide_eq_true_eq] at hclosed
    exact if_neg fun h => h.elim (fun h => hclosed.1 h.1) fun h => hclosed.2 h.1

theorem apart_of_hard {s u : Text} (hs : Opens s) (hu : Hard u) : lexer.Apart s u := by
  intro t ht c hc
  have hopens : t.opens = true := by
    rw [Opens, Option.all_eq_true] at hs
    exact hs t ht
  have hsign : c ≠ 0x3D ∧ c ≠ 0x3E := by
    rw [Hard, Option.any_eq_true] at hu
    obtain ⟨x, hx, h⟩ := hu
    rw [Option.mem_def.mp hc, Option.some.injEq] at hx
    subst hx
    simpa using h
  cases t with
  | symbol s =>
    exact if_neg fun h => h.elim (fun h => h.2.elim hsign.1 hsign.2) fun h => hsign.1 h.2
  | _ => cases hopens

theorem tokens_append {s u : Text} (h : lexer.Apart s u) : tokens (s ++ u) = tokens s ++ tokens u := by
  rw [tokens, Munch.tokens_append h, List.map_append]
  rfl

/-! ### Parts -/

/-- A part that stands for itself: a name, a parameter, an expression. -/
structure Says (s : Text) : Prop where
  closed : Closed s
  hard : Hard s

/-- What comes before such a part. -/
structure Lead (s : Text) : Prop where
  opens : Opens s
  hard : Hard s

/-- What stands between two such parts. -/
structure Gap (s : Text) : Prop where
  ne_nil : s ≠ []
  soft : Soft s
  opens : Opens s

/-- What may come behind such a part. -/
structure Clause (s : Text) : Prop where
  soft : Soft s
  closed : Closed s

theorem head?_append_of_ne_nil {s : Text} (h : s ≠ []) (u : Text) : (s ++ u).head? = s.head? := by
  obtain ⟨c, s, rfl⟩ := List.exists_cons_of_ne_nil h
  rfl

theorem Hard.append {s : Text} (h : Hard s) (u : Text) : Hard (s ++ u) := by
  rw [Hard, head?_append_of_ne_nil h.ne_nil]
  exact h

theorem opens_append {s u : Text} (h : lexer.Apart s u) (hu : u ≠ []) (ho : Opens u) : Opens (s ++ u) := by
  rw [Opens, Munch.opened_append h hu]
  exact ho

theorem closed_append {s u : Text} (h : lexer.Apart s u) (hu : u ≠ []) (hc : Closed u) :
    Closed (s ++ u) := by
  rw [Closed, Munch.opened_append h hu]
  exact hc

theorem Says.gap {s g : Text} (hs : Says s) (hg : Gap g) :
    Lead (s ++ g) ∧ tokens (s ++ g) = tokens s ++ tokens g := by
  have h := apart_of_soft hs.closed hg.soft
  exact ⟨⟨opens_append h hg.ne_nil hg.opens, hs.hard.append g⟩, tokens_append h⟩

theorem Lead.says {l s : Text} (hl : Lead l) (hs : Says s) :
    Says (l ++ s) ∧ tokens (l ++ s) = tokens l ++ tokens s := by
  have h := apart_of_hard hl.opens hs.hard
  exact ⟨⟨closed_append h hs.hard.ne_nil hs.closed, hl.hard.append s⟩, tokens_append h⟩

theorem Says.clause {s c : Text} (hs : Says s) (hc : Clause c) :
    Says (s ++ c) ∧ tokens (s ++ c) = tokens s ++ tokens c := by
  have h := apart_of_soft hs.closed hc.soft
  refine ⟨⟨?_, hs.hard.append c⟩, tokens_append h⟩
  by_cases hnil : c = []
  · rw [hnil, List.append_nil]
    exact hs.closed
  · exact closed_append h hnil hc.closed

theorem Gap.says {g s : Text} (hg : Gap g) (hs : Says s) :
    Clause (g ++ s) ∧ tokens (g ++ s) = tokens g ++ tokens s := by
  have h := apart_of_hard hg.opens hs.hard
  refine ⟨⟨?_, closed_append h hs.hard.ne_nil hs.closed⟩, tokens_append h⟩
  rw [Soft, head?_append_of_ne_nil hg.ne_nil]
  exact hg.soft

/-- Two parts with a gap between them. -/
theorem Says.join {s g u : Text} (hs : Says s) (hg : Gap g) (hu : Says u) :
    Says (s ++ g ++ u) ∧ tokens (s ++ g ++ u) = tokens s ++ (tokens g ++ tokens u) := by
  obtain ⟨hl, hsg⟩ := hs.gap hg
  obtain ⟨hsay, ht⟩ := hl.says hu
  refine ⟨hsay, ?_⟩
  rw [ht, hsg, List.append_assoc]

/-- A part between brackets, or between a word with a bracket and the other one. -/
theorem Lead.enclose {l s c : Text} (hl : Lead l) (hs : Says s) (hc : Clause c) :
    Says (l ++ s ++ c) ∧ tokens (l ++ s ++ c) = tokens l ++ (tokens s ++ tokens c) := by
  obtain ⟨hls, ht⟩ := hl.says hs
  obtain ⟨hsay, hts⟩ := hls.clause hc
  refine ⟨hsay, ?_⟩
  rw [hts, ht, List.append_assoc]

/-! ### Names and parameters -/

/-- A name begins with a letter and is no word of the language. -/
def isName : Text → Bool
  | [] => false
  | c :: s =>
    isLetter c && s.all isWord &&
      (((c :: s).map upper ≠ word "AND" && (c :: s).map upper ≠ word "OR") &&
        (keywords.lookup ((c :: s).map upper)).isNone)

theorem grow_word {s : Text} (h : s.all isWord) (w : Text) :
    s.foldlM lexer.grow (.word w) = some (.word (w ++ s)) := by
  induction s generalizing w with
  | nil => rw [List.append_nil]; rfl
  | cons c s ih =>
    rw [List.all_cons, Bool.and_eq_true] at h
    have hc : lexer.grow (.word w) c = some (.word (w ++ [c])) := if_pos h.1
    rw [List.foldlM_cons, hc]
    exact (ih h.2 _).trans (by rw [List.append_assoc]; rfl)

theorem isLetter_ne {c : UInt8} (h : isLetter c) : c ≠ 0x20 ∧ c ≠ 0x3F ∧ c ≠ 0x3D ∧ c ≠ 0x3E := by
  refine ⟨?_, ?_, ?_, ?_⟩ <;> rintro rfl <;> exact absurd h (by decide)

theorem says_name {w : Text} (h : isName w) : Says w ∧ tokens w = [.name w] := by
  cases w with
  | nil => cases h
  | cons c s =>
    simp only [isName, Bool.and_eq_true, decide_eq_true_eq, Option.isNone_iff_eq_none] at h
    obtain ⟨⟨hc, hs⟩, ⟨hand, hor⟩, hkey⟩ := h
    obtain ⟨hspace, hmark, heq, hgt⟩ := isLetter_ne hc
    have hword : isWord c = true := by rw [isWord, hc, Bool.true_or]
    have hstart : lexer.start c = some (.word [c]) := by
      simp only [lexer, if_neg hspace, if_neg hmark, if_pos hword]
    obtain ⟨ht, ho⟩ := Munch.tokens_single hstart (grow_word hs [c])
    refine ⟨⟨?_, ?_⟩, ?_⟩
    · rw [Closed, ho]
      rfl
    · rw [Hard, List.head?_cons, Option.any_some, Bool.and_eq_true, decide_eq_true_eq, decide_eq_true_eq]
      exact ⟨heq, hgt⟩
    · rw [tokens, ht, List.map_singleton, Lexeme.token]
      simp only [List.singleton_append, if_neg hand, if_neg hor, hkey]

/-- The number that digits go on with. -/
def numberFrom (n : Nat) (digits : Text) : Nat := digits.foldl (fun n c => n * 10 + (c.toNat - 0x30)) n

theorem grow_parameter {digits : Text} (h : digits.all isDigit) (n : Nat) :
    digits.foldlM lexer.grow (.parameter n) = some (.parameter (numberFrom n digits)) := by
  induction digits generalizing n with
  | nil => rfl
  | cons c digits ih =>
    rw [List.all_cons, Bool.and_eq_true] at h
    have hc : lexer.grow (.parameter n) c = some (.parameter (n * 10 + (c.toNat - 0x30))) := if_pos h.1
    rw [List.foldlM_cons, hc]
    exact ih h.2 _

theorem says_parameter {digits : Text} (h : digits.all isDigit) :
    Says (0x3F :: digits) ∧ tokens (0x3F :: digits) = [.parameter (numberFrom 0 digits)] := by
  obtain ⟨ht, ho⟩ := Munch.tokens_single (m := lexer) (c := 0x3F) rfl (grow_parameter h 0)
  refine ⟨⟨?_, rfl⟩, ?_⟩
  · rw [Closed, ho]
    rfl
  · rw [tokens, ht]
    rfl

end Vds.Library.Sql
