import Mathlib

/-! A field whose nonzero elements are the powers of one generator: multiplication by the generator
is an additive map that runs through all of them before it comes back to one. -/

namespace Vds

structure CyclicGenerator (V : Type) [AddCommGroup V] where
  /-- Multiplication by the generator. -/
  shift : AddMonoid.End V
  one : V
  order : ℕ
  order_pos : 0 < order
  returns : (shift ^ order) one = one
  one_ne_zero : one ≠ 0
  reaches : ∀ v, v ≠ 0 → ∃ i, (shift ^ i) one = v

namespace CyclicGenerator

variable {V : Type} [AddCommGroup V] (g : CyclicGenerator V)

def power (i : ℕ) : V := (g.shift ^ i) g.one

theorem power_add (i j : ℕ) : g.power (i + j) = (g.shift ^ i) (g.power j) := by
  rw [power, pow_add]
  rfl

theorem power_add_order (i : ℕ) : g.power (i + g.order) = g.power i := by
  rw [power_add]
  exact congrArg _ g.returns

theorem power_mod (i : ℕ) : g.power (i % g.order) = g.power i := by
  have h : ∀ q r, g.power (r + g.order * q) = g.power r := by
    intro q r
    induction q with
    | zero => rw [mul_zero, add_zero]
    | succ q ih => rw [mul_add, mul_one, ← add_assoc, power_add_order, ih]
  conv_rhs => rw [← Nat.mod_add_div i g.order]
  exact (h _ _).symm

/-- Additive maps that commute with the generator are determined by their value at one. -/
theorem ext_of_commute {p q : AddMonoid.End V} (hp : Commute p g.shift) (hq : Commute q g.shift)
    (h : p g.one = q g.one) : p = q := by
  apply DFunLike.ext
  intro v
  by_cases hv : v = 0
  · rw [hv, map_zero, map_zero]
  · obtain ⟨i, rfl⟩ := g.reaches v hv
    have hpi := congrArg (fun f : AddMonoid.End V => f g.one) (hp.pow_right i).eq
    have hqi := congrArg (fun f : AddMonoid.End V => f g.one) (hq.pow_right i).eq
    calc p ((g.shift ^ i) g.one) = (g.shift ^ i) (p g.one) := hpi
      _ = (g.shift ^ i) (q g.one) := by rw [h]
      _ = q ((g.shift ^ i) g.one) := hqi.symm

open Classical in
/-- Multiplication by an element. -/
noncomputable def times (u : V) : AddMonoid.End V :=
  if h : u = 0 then 0 else g.shift ^ (g.reaches u h).choose

theorem times_zero : g.times 0 = 0 := dif_pos rfl

theorem times_commute (u : V) : Commute (g.times u) g.shift := by
  rw [times]
  split_ifs with h
  · exact Commute.zero_left _
  · exact Commute.pow_self _ _

theorem times_one (u : V) : g.times u g.one = u := by
  rw [times]
  split_ifs with h
  · exact h.symm
  · exact (g.reaches u h).choose_spec

theorem eq_times {p : AddMonoid.End V} (hp : Commute p g.shift) : p = g.times (p g.one) :=
  g.ext_of_commute hp (g.times_commute _) (g.times_one _).symm

theorem times_power (i : ℕ) : g.times (g.power i) = g.shift ^ i :=
  (g.eq_times (Commute.pow_self g.shift i)).symm

theorem times_add (u v : V) : g.times (u + v) = g.times u + g.times v := by
  have h := g.eq_times ((g.times_commute u).add_left (g.times_commute v))
  rw [h]
  congr 1
  exact (congrArg₂ _ (g.times_one u) (g.times_one v)).symm

theorem times_times (u v : V) : g.times (g.times u v) = g.times u * g.times v := by
  have h := g.eq_times ((g.times_commute u).mul_left (g.times_commute v))
  rw [h]
  congr 1
  exact congrArg _ (g.times_one v).symm

theorem times_generator_one : g.times g.one = 1 :=
  (g.eq_times (Commute.one_left g.shift)).symm

theorem times_comm (u v : V) : g.times u v = g.times v u := by
  by_cases hv : v = 0
  · rw [hv, map_zero, times_zero]
    rfl
  · obtain ⟨i, rfl⟩ := g.reaches v hv
    have h := congrArg (fun f : AddMonoid.End V => f g.one) ((g.times_commute u).pow_right i).eq
    calc g.times u ((g.shift ^ i) g.one) = (g.shift ^ i) (g.times u g.one) := h
      _ = (g.shift ^ i) u := by rw [times_one]
      _ = g.times (g.power i) u := by rw [times_power]

theorem power_ne_zero (i : ℕ) : g.power i ≠ 0 := by
  intro h
  have hr : g.power (g.order * i) = g.one := by
    rw [← power_mod, Nat.mul_mod_right]
    rfl
  have hle : i ≤ g.order * i := Nat.le_mul_of_pos_left i g.order_pos
  rw [← Nat.sub_add_cancel hle, power_add, h, map_zero] at hr
  exact g.one_ne_zero hr.symm

/-- The elements with their field operations. -/
@[ext] structure Element (g : CyclicGenerator V) where
  value : V

namespace Element

variable {g : CyclicGenerator V}

def equiv : Element g ≃ V := ⟨Element.value, Element.mk, fun _ => rfl, fun _ => rfl⟩

instance addCommGroup : AddCommGroup (Element g) := Equiv.addCommGroup equiv

noncomputable instance : Mul (Element g) := ⟨fun u v => ⟨g.times u.value v.value⟩⟩

instance : One (Element g) := ⟨⟨g.one⟩⟩

theorem value_add (u v : Element g) : (u + v).value = u.value + v.value := rfl

theorem value_sub (u v : Element g) : (u - v).value = u.value - v.value := rfl

theorem value_zero : (0 : Element g).value = 0 := rfl

theorem value_mul (u v : Element g) : (u * v).value = g.times u.value v.value := rfl

theorem value_one : (1 : Element g).value = g.one := rfl

noncomputable instance : CommRing (Element g) where
  __ := addCommGroup
  mul_assoc u v w := by
    ext
    rw [value_mul, value_mul, value_mul, value_mul, times_times]
    rfl
  one_mul u := by
    ext
    rw [value_mul, value_one, times_generator_one]
    rfl
  mul_one u := by
    ext
    rw [value_mul, value_one, times_one]
  left_distrib u v w := by
    ext
    rw [value_mul, value_add, map_add, value_add, value_mul, value_mul]
  right_distrib u v w := by
    ext
    rw [value_mul, value_add, times_add, value_add, value_mul, value_mul]
    rfl
  zero_mul u := by
    ext
    rw [value_mul, value_zero, times_zero]
    rfl
  mul_zero u := by
    ext
    rw [value_mul, value_zero, map_zero]
  mul_comm u v := by
    ext
    exact g.times_comm _ _

theorem exists_power {u : Element g} (hu : u ≠ 0) : ∃ i, u.value = g.power i := by
  have hv : u.value ≠ 0 := fun h => hu (Element.ext h)
  obtain ⟨i, hi⟩ := g.reaches u.value hv
  exact ⟨i, hi.symm⟩

theorem mul_power (i j : ℕ) :
    (⟨g.power i⟩ * ⟨g.power j⟩ : Element g) = ⟨g.power (i + j)⟩ := by
  ext
  rw [value_mul, times_power, power_add]

theorem exists_inverse {u : Element g} (hu : u ≠ 0) : ∃ v, u * v = 1 := by
  obtain ⟨i, hi⟩ := exists_power hu
  have hle : i ≤ g.order * i := Nat.le_mul_of_pos_left i g.order_pos
  have hu' : u = ⟨g.power i⟩ := Element.ext hi
  refine ⟨⟨g.power (g.order * i - i)⟩, ?_⟩
  rw [hu', mul_power, Nat.add_sub_cancel' hle]
  ext
  change g.power (g.order * i) = g.one
  rw [← power_mod, Nat.mul_mod_right]
  rfl

instance : Nontrivial (Element g) :=
  ⟨0, 1, fun h => g.one_ne_zero (congrArg Element.value h).symm⟩

theorem isField : IsField (Element g) where
  exists_pair_ne := ⟨0, 1, zero_ne_one⟩
  mul_comm := mul_comm
  mul_inv_cancel := exists_inverse

noncomputable instance : Field (Element g) := isField.toField

end Element
end CyclicGenerator
end Vds
