import Vds.Library.Comparison

/-! `network_address` as a key: the three-way comparison of socket addresses, and the map of the
sessions of `udp_transport` that is kept in its order. -/

namespace Vds.Network

open Library

def afInet : UInt16 := 2

def afInet6 : UInt16 := 10

/-- The fields of `addr_` that are compared, as they lie in memory: the addresses and the ports are
in network byte order. -/
inductive NetworkAddress
  | inet (sinAddr : Vector UInt8 4) (sinPort : UInt16)
  | inet6 (sin6Addr : Vector UInt8 16) (sin6Port : UInt16) (sin6Flowinfo sin6ScopeId : UInt32)
  | other (ssFamily : UInt16) (h : ssFamily ≠ afInet ∧ ssFamily ≠ afInet6)
  deriving DecidableEq

namespace NetworkAddress

def family : NetworkAddress → UInt16
  | .inet _ _ => afInet
  | .inet6 _ _ _ _ => afInet6
  | .other ssFamily _ => ssFamily

/-- Four bytes of memory as a number of the machine, the first one the lowest. -/
def word (bytes : List UInt8) : UInt32 := UInt32.ofNat (Nat.ofDigits 256 (bytes.map UInt8.toNat))

/-- An unsigned number that is returned as an `int`. -/
def asInt (w : UInt32) : Int := w.toBitVec.toInt

def ntohs (port : UInt16) : UInt16 := (port <<< 8) ||| (port >>> 8)

def memcmp : List UInt8 → List UInt8 → Int
  | l :: ls, r :: rs => firstDifference (l.toNat - r.toNat) (memcmp ls rs)
  | _, _ => 0

def v4Prefix : List UInt8 := [0, 0, 0, 0, 0, 0, 0, 0, 0, 0, 0xff, 0xff]

/-- `IN6_IS_ADDR_V4MAPPED`. -/
def isV4Mapped (sin6Addr : Vector UInt8 16) : Bool := sin6Addr.toList.take 12 = v4Prefix

/-- `s6_addr32[3]`. -/
def lastWord (sin6Addr : Vector UInt8 16) : UInt32 := word (sin6Addr.toList.drop 12)

def compare : NetworkAddress → NetworkAddress → Int
  | .inet l lport, .inet r rport =>
    firstDifference (asInt (word l.toList - word r.toList)) (lport.toNat - rport.toNat)
  | .inet6 l lport lflow lscope, .inet6 r rport rflow rscope =>
    firstDifference (memcmp l.toList r.toList)
      (firstDifference ((ntohs lport).toNat - (ntohs rport).toNat)
        (firstDifference (asInt (lflow - rflow)) (asInt (lscope - rscope))))
  | .inet l lport, .inet6 r rport _ _ =>
    if isV4Mapped r then
      firstDifference (asInt (word l.toList - lastWord r)) (lport.toNat - rport.toNat)
    else afInet.toNat - afInet6.toNat
  | .inet6 l lport _ _, .inet r rport =>
    if isV4Mapped l then
      firstDifference (asInt (lastWord l - word r.toList)) (lport.toNat - rport.toNat)
    else afInet6.toNat - afInet.toNat
  | l, r => if l.family = r.family then -1 else l.family.toNat - r.family.toNat

/-! ### The numbers that are compared -/

theorem asInt_eq_zero {w : UInt32} : asInt w = 0 ↔ w = 0 := by
  rw [asInt, ← BitVec.toInt_zero (w := 32), BitVec.toInt_inj, ← UInt32.toBitVec_zero,
    UInt32.toBitVec_inj]

theorem asInt_sub_eq_zero {v w : UInt32} : asInt (v - w) = 0 ↔ v = w := by
  rw [asInt_eq_zero, sub_eq_zero]

theorem word_inj {l r : List UInt8} (hl : l.length = 4) (hr : r.length = 4) :
    word l = word r ↔ l = r := by
  have hbyte : ∀ bytes : List UInt8, ∀ d ∈ bytes.map UInt8.toNat, d < 256 := by
    intro bytes d hd
    obtain ⟨b, -, rfl⟩ := List.mem_map.1 hd
    exact b.toNat_lt
  have hsmall : ∀ bytes : List UInt8, bytes.length = 4 →
      (word bytes).toNat = Nat.ofDigits 256 (bytes.map UInt8.toNat) := by
    intro bytes hlen
    have hlt := Nat.ofDigits_lt_base_pow_length (by decide : 1 < 256) (hbyte bytes)
    rw [List.length_map, hlen] at hlt
    exact UInt32.toNat_ofNat_of_lt' hlt
  refine ⟨?_, congrArg word⟩
  intro h
  have hdigits := congrArg UInt32.toNat h
  rw [hsmall l hl, hsmall r hr] at hdigits
  apply List.map_injective_iff.2 fun _ _ => UInt8.toNat_inj.1
  exact Nat.ofDigits_inj_of_len_eq (by decide) (by rw [List.length_map, List.length_map, hl, hr])
    (hbyte l) (hbyte r) hdigits

theorem ntohs_ntohs (port : UInt16) : ntohs (ntohs port) = port := by
  apply UInt16.toBitVec_inj.1
  ext i hi
  simp only [ntohs, UInt16.toBitVec_or, UInt16.toBitVec_shiftLeft, UInt16.toBitVec_shiftRight]
  interval_cases i <;> simp

theorem ntohs_inj {p q : UInt16} : ntohs p = ntohs q ↔ p = q :=
  (Function.LeftInverse.injective ntohs_ntohs).eq_iff

theorem toNat_sub_eq_zero {p q : UInt16} : (p.toNat : Int) - q.toNat = 0 ↔ p = q := by
  rw [sub_eq_zero, Int.natCast_inj, UInt16.toNat_inj]

theorem memcmp_eq_zero {l r : List UInt8} (h : l.length = r.length) : memcmp l r = 0 ↔ l = r := by
  induction l generalizing r with
  | nil =>
    obtain rfl := List.length_eq_zero_iff.1 h.symm
    exact iff_of_true rfl rfl
  | cons b l ih =>
    cases r with
    | nil => cases h
    | cons b' r =>
      rw [memcmp, firstDifference_eq_zero, ih (Nat.succ.inj h), List.cons_eq_cons]
      apply and_congr_left'
      rw [sub_eq_zero, Int.natCast_inj, UInt8.toNat_inj]

/-- Byte strings of one length are ordered. -/
theorem comparison_memcmp (n : Nat) : Comparison memcmp {l | l.length = n} := by
  induction n with
  | zero =>
    refine (comparison_sub (fun _ => 0) _).congr ?_
    intro l hl r hr
    obtain rfl := List.length_eq_zero_iff.1 hl
    rfl
  | succ n ih =>
    have hhead : Comparison (fun l r : List UInt8 => ((l.headD 0).toNat : Int) - (r.headD 0).toNat)
        {l | l.length = n + 1} := comparison_sub (fun l : List UInt8 => ((l.headD 0).toNat : Int)) _
    have htail : Comparison (fun l r : List UInt8 => memcmp l.tail r.tail)
        {l | l.length = n + 1} := by
      apply ih.comap
      intro l hl
      rw [Set.mem_setOf_eq, List.length_tail, hl, Nat.add_sub_cancel]
    refine (hhead.firstDifference fun l _ => htail.mono (Set.sep_subset _ _)).congr ?_
    intro l hl r hr
    cases l with
    | nil => cases hl
    | cons b l =>
      cases r with
      | nil => cases hr
      | cons b' r => rfl

/-- Half of the circle of the numbers of 32 bits, from some number on, has all of `W`. -/
def HalfCircle (W : Set UInt32) : Prop := ∃ w₀, ∀ w ∈ W, (w - w₀).toNat < 2 ^ 31

theorem asInt_sub {v w w₀ : UInt32} (hv : (v - w₀).toNat < 2 ^ 31) (hw : (w - w₀).toNat < 2 ^ 31) :
    asInt (v - w) = (v - w₀).toNat - (w - w₀).toNat := by
  rw [← sub_sub_sub_cancel_right v w w₀, asInt, UInt32.toBitVec_sub, BitVec.toInt_sub,
    BitVec.toInt_eq_toNat_of_lt (by rw [UInt32.toNat_toBitVec]; omega),
    BitVec.toInt_eq_toNat_of_lt (by rw [UInt32.toNat_toBitVec]; omega), UInt32.toNat_toBitVec,
    UInt32.toNat_toBitVec]
  apply Int.bmod_eq_of_le
  · omega
  · omega

theorem comparison_asInt {α : Type} (f : α → UInt32) {K : Set α} (h : HalfCircle (f '' K)) :
    Comparison (fun a b => asInt (f a - f b)) K := by
  obtain ⟨w₀, hw₀⟩ := h
  refine (comparison_sub (fun a => ((f a - w₀).toNat : Int)) K).congr ?_
  intro a ha b hb
  exact (asInt_sub (hw₀ _ (Set.mem_image_of_mem f ha)) (hw₀ _ (Set.mem_image_of_mem f hb))).symm

/-! ### Equal endpoints -/

def IsInet : NetworkAddress → Prop
  | .inet _ _ => True
  | .inet6 _ _ _ _ => True
  | .other _ _ => False

/-- The same fields; an IPv4 address is also the same as its mapped address of IPv6, whatever the
flow and the scope. -/
def SameEndpoint : NetworkAddress → NetworkAddress → Prop
  | .inet l lport, .inet6 r rport _ _ => r.toList = v4Prefix ++ l.toList ∧ lport = rport
  | .inet6 l lport _ _, .inet r rport => l.toList = v4Prefix ++ r.toList ∧ lport = rport
  | l, r => l = r

theorem mapped_iff {v4 : Vector UInt8 4} {v6 : Vector UInt8 16} :
    v6.toList = v4Prefix ++ v4.toList ↔ isV4Mapped v6 ∧ word v4.toList = lastWord v6 := by
  have hlen : (v6.toList.drop 12).length = 4 := by
    rw [List.length_drop, Vector.length_toList]
  rw [lastWord, word_inj v4.length_toList hlen, isV4Mapped, decide_eq_true_eq]
  refine ⟨?_, ?_⟩
  · intro h
    rw [h]
    exact ⟨rfl, rfl⟩
  · rintro ⟨hfront, hrest⟩
    rw [← hfront, hrest, List.take_append_drop]

theorem compare_eq_zero_iff {l r : NetworkAddress} (hl : l.IsInet) (hr : r.IsInet) :
    compare l r = 0 ↔ SameEndpoint l r := by
  cases l with
  | inet l lport =>
    cases r with
    | inet r rport =>
      show _ ↔ NetworkAddress.inet l lport = .inet r rport
      rw [compare, firstDifference_eq_zero, asInt_sub_eq_zero, toNat_sub_eq_zero,
        word_inj l.length_toList r.length_toList, Vector.toList_inj, NetworkAddress.inet.injEq]
    | inet6 r rport rflow rscope =>
      rw [compare, SameEndpoint, mapped_iff]
      split_ifs with hmapped
      · rw [firstDifference_eq_zero, asInt_sub_eq_zero, toNat_sub_eq_zero]
        apply and_congr_left'
        exact (and_iff_right hmapped).symm
      · exact iff_of_false (by decide) fun h => hmapped h.1.1
    | other f h => exact hr.elim
  | inet6 l lport lflow lscope =>
    cases r with
    | inet r rport =>
      rw [compare, SameEndpoint, mapped_iff]
      split_ifs with hmapped
      · rw [firstDifference_eq_zero, asInt_sub_eq_zero, toNat_sub_eq_zero]
        apply and_congr_left'
        exact eq_comm.trans (and_iff_right hmapped).symm
      · exact iff_of_false (by decide) fun h => hmapped h.1.1
    | inet6 r rport rflow rscope =>
      show _ ↔ NetworkAddress.inet6 l lport lflow lscope = .inet6 r rport rflow rscope
      rw [compare, NetworkAddress.inet6.injEq]
      simp only [firstDifference_eq_zero, asInt_sub_eq_zero, toNat_sub_eq_zero, ntohs_inj]
      rw [memcmp_eq_zero (l.length_toList.trans r.length_toList.symm), Vector.toList_inj]
    | other f h => exact hr.elim
  | other f h => exact hl.elim

/-! ### Sets of endpoints -/

/-- A set of endpoints that compare in one order: no IPv4 address stands beside a mapped one, and
the numbers that are subtracted lie within half of the circle. -/
structure Endpoints (K : Set NetworkAddress) : Prop where
  inet : ∀ a ∈ K, a.IsInet
  unmixed : ∀ l lport r rport f s, .inet l lport ∈ K → .inet6 r rport f s ∈ K → ¬ isV4Mapped r
  addr : HalfCircle {w | ∃ a port, .inet a port ∈ K ∧ word a.toList = w}
  flowinfo : ∀ a port, HalfCircle {f | ∃ s, .inet6 a port f s ∈ K}
  scopeId : ∀ a port f, HalfCircle {s | .inet6 a port f s ∈ K}

def port : NetworkAddress → UInt16
  | .inet _ sinPort => sinPort
  | .inet6 _ sin6Port _ _ => sin6Port
  | .other _ _ => 0

/-- The bytes of the address. -/
def bytes : NetworkAddress → List UInt8
  | .inet sinAddr _ => sinAddr.toList
  | .inet6 sin6Addr _ _ _ => sin6Addr.toList
  | .other _ _ => []

def flowinfo : NetworkAddress → UInt32
  | .inet6 _ _ sin6Flowinfo _ => sin6Flowinfo
  | _ => 0

def scopeId : NetworkAddress → UInt32
  | .inet6 _ _ _ sin6ScopeId => sin6ScopeId
  | _ => 0

section

variable {K : Set NetworkAddress}

theorem comparison_inet (hK : Endpoints K) : Comparison compare {a ∈ K | a.family = afInet} := by
  have hcases : ∀ a ∈ {a ∈ K | a.family = afInet}, ∃ l lport, a = .inet l lport ∧ a ∈ K := by
    rintro a ⟨ha, hfamily⟩
    cases a with
    | inet l lport => exact ⟨l, lport, rfl, ha⟩
    | inet6 l lport f s => exact absurd hfamily (by decide : afInet6 ≠ afInet)
    | other f h => exact absurd hfamily h.1
  have hcircle : HalfCircle ((fun a : NetworkAddress => word a.bytes) '' {a ∈ K | a.family = afInet}) := by
    obtain ⟨w₀, hw₀⟩ := hK.addr
    refine ⟨w₀, ?_⟩
    rintro w ⟨a, ha, rfl⟩
    obtain ⟨l, lport, rfl, hmem⟩ := hcases a ha
    exact hw₀ _ ⟨l, lport, hmem, rfl⟩
  have haddr := comparison_asInt (fun a : NetworkAddress => word a.bytes) hcircle
  have hport : Comparison (fun a b : NetworkAddress => (a.port.toNat : Int) - b.port.toNat)
      {a ∈ K | a.family = afInet} := comparison_sub (fun a : NetworkAddress => (a.port.toNat : Int)) _
  refine (haddr.firstDifference fun a _ => hport.mono (Set.sep_subset _ _)).congr ?_
  intro a ha b hb
  obtain ⟨l, lport, rfl, -⟩ := hcases a ha
  obtain ⟨r, rport, rfl, -⟩ := hcases b hb
  rfl

theorem exists_of_inet6 (hK : Endpoints K) {a : NetworkAddress} (h : a ∈ K ∧ a.family = afInet6) :
    ∃ l lport f s, a = .inet6 l lport f s := by
  cases a with
  | inet l lport => exact absurd h.2 (by decide : afInet ≠ afInet6)
  | inet6 l lport f s => exact ⟨l, lport, f, s, rfl⟩
  | other f h' => exact (hK.inet _ h.1).elim

theorem comparison_flowinfo (hK : Endpoints K) {L : Set NetworkAddress}
    (hL : ∀ a ∈ L, a ∈ K ∧ a.family = afInet6) (l : Vector UInt8 16) (p : UInt16)
    (hlike : ∀ a ∈ L, a.bytes = l.toList ∧ a.port = p) :
    Comparison (fun a b => asInt (a.flowinfo - b.flowinfo)) L := by
  apply comparison_asInt NetworkAddress.flowinfo
  obtain ⟨w₀, hw₀⟩ := hK.flowinfo l p
  refine ⟨w₀, ?_⟩
  rintro w ⟨a, ha, rfl⟩
  obtain ⟨l', p', f, s, rfl⟩ := exists_of_inet6 hK (hL a ha)
  obtain ⟨hbytes, hport⟩ := hlike _ ha
  obtain rfl : l' = l := Vector.toList_inj.1 hbytes
  obtain rfl : p' = p := hport
  exact hw₀ _ ⟨s, (hL _ ha).1⟩

theorem comparison_scopeId (hK : Endpoints K) {L : Set NetworkAddress}
    (hL : ∀ a ∈ L, a ∈ K ∧ a.family = afInet6) (l : Vector UInt8 16) (p : UInt16) (f : UInt32)
    (hlike : ∀ a ∈ L, a.bytes = l.toList ∧ a.port = p ∧ a.flowinfo = f) :
    Comparison (fun a b => asInt (a.scopeId - b.scopeId)) L := by
  apply comparison_asInt NetworkAddress.scopeId
  obtain ⟨w₀, hw₀⟩ := hK.scopeId l p f
  refine ⟨w₀, ?_⟩
  rintro w ⟨a, ha, rfl⟩
  obtain ⟨l', p', f', s, rfl⟩ := exists_of_inet6 hK (hL a ha)
  obtain ⟨hbytes, hport, hflow⟩ := hlike _ ha
  obtain rfl : l' = l := Vector.toList_inj.1 hbytes
  obtain rfl : p' = p := hport
  obtain rfl : f' = f := hflow
  exact hw₀ _ (hL _ ha).1

theorem comparison_inet6 (hK : Endpoints K) : Comparison compare {a ∈ K | a.family = afInet6} := by
  have hbytes : Comparison (fun a b => memcmp (bytes a) (bytes b)) {a ∈ K | a.family = afInet6} := by
    refine Comparison.comap (f := bytes) (comparison_memcmp 16) fun a ha => ?_
    obtain ⟨l, lport, f, s, rfl⟩ := exists_of_inet6 hK ha
    exact l.length_toList
  have hport := comparison_sub (fun a : NetworkAddress => ((ntohs a.port).toNat : Int))
    {a ∈ K | a.family = afInet6}
  refine (hbytes.firstDifference fun a ha => ?_).congr ?_ (c := fun a b => firstDifference
    (memcmp (bytes a) (bytes b)) (firstDifference ((ntohs a.port).toNat - (ntohs b.port).toNat)
      (firstDifference (asInt (a.flowinfo - b.flowinfo)) (asInt (a.scopeId - b.scopeId)))))
  · -- the same bytes
    obtain ⟨l, lport, f, s, rfl⟩ := exists_of_inet6 hK ha
    have hsame : ∀ b ∈ {b ∈ {a ∈ K | a.family = afInet6} |
        memcmp (bytes (.inet6 l lport f s)) (bytes b) = 0}, b.bytes = l.toList := by
      rintro b ⟨hb, hzero⟩
      obtain ⟨l', p', f', s', rfl⟩ := exists_of_inet6 hK hb
      exact ((memcmp_eq_zero (l.length_toList.trans l'.length_toList.symm)).1 hzero).symm
    refine (hport.mono (Set.sep_subset _ _)).firstDifference fun b hb => ?_
    · -- the same port
      have hlike : ∀ c ∈ {c ∈ {b ∈ {a ∈ K | a.family = afInet6} |
          memcmp (bytes (.inet6 l lport f s)) (bytes b) = 0} |
            ((ntohs b.port).toNat : Int) - (ntohs c.port).toNat = 0},
          (c ∈ K ∧ c.family = afInet6) ∧ c.bytes = l.toList ∧ c.port = b.port := by
        rintro c ⟨hc, hzero⟩
        exact ⟨hc.1, hsame c hc, (ntohs_inj.1 (toNat_sub_eq_zero.1 hzero)).symm⟩
      refine (comparison_flowinfo hK (fun c hc => (hlike c hc).1) l b.port
        fun c hc => (hlike c hc).2).firstDifference fun c hc => ?_
      apply comparison_scopeId hK (fun e he => (hlike e he.1).1) l b.port c.flowinfo
      rintro e ⟨he, hzero⟩
      exact ⟨(hlike e he).2.1, (hlike e he).2.2, (asInt_sub_eq_zero.1 hzero).symm⟩
  · intro a ha b hb
    obtain ⟨l, lport, f, s, rfl⟩ := exists_of_inet6 hK ha
    obtain ⟨r, rport, g, t, rfl⟩ := exists_of_inet6 hK hb
    rfl

/-- Endpoints of both families: those of IPv4 come first. -/
theorem comparison_compare (hK : Endpoints K) : Comparison compare K := by
  have hfamily : Comparison
      (fun a b : NetworkAddress => (a.family.toNat : Int) - b.family.toNat) K :=
    comparison_sub (fun a : NetworkAddress => (a.family.toNat : Int)) _
  have hsame : ∀ a ∈ K, Comparison compare {b ∈ K | (a.family.toNat : Int) - b.family.toNat = 0} := by
    intro a ha
    cases a with
    | inet l lport =>
      apply (comparison_inet hK).mono
      rintro b ⟨hb, heq⟩
      exact ⟨hb, (toNat_sub_eq_zero.1 heq).symm⟩
    | inet6 l lport f s =>
      apply (comparison_inet6 hK).mono
      rintro b ⟨hb, heq⟩
      exact ⟨hb, (toNat_sub_eq_zero.1 heq).symm⟩
    | other f h => exact (hK.inet _ ha).elim
  refine (hfamily.firstDifference hsame).congr ?_
  intro a ha b hb
  cases a with
  | inet l lport =>
    cases b with
    | inet r rport => exact firstDifference_of_eq _ (sub_self _)
    | inet6 r rport f s =>
      rw [compare, if_neg (hK.unmixed _ _ _ _ _ _ ha hb)]
      exact firstDifference_of_ne _ (by decide : (afInet.toNat : Int) - afInet6.toNat ≠ 0)
    | other f h => exact (hK.inet _ hb).elim
  | inet6 l lport f s =>
    cases b with
    | inet r rport =>
      rw [compare, if_neg (hK.unmixed _ _ _ _ _ _ hb ha)]
      exact firstDifference_of_ne _ (by decide : (afInet6.toNat : Int) - afInet.toNat ≠ 0)
    | inet6 r rport f s => exact firstDifference_of_eq _ (sub_self _)
    | other f h => exact (hK.inet _ hb).elim
  | other f h => exact (hK.inet _ ha).elim

/-- On such a set only an endpoint itself compares equal. -/
theorem eq_of_compare (hK : Endpoints K) {a b : NetworkAddress} (ha : a ∈ K) (hb : b ∈ K)
    (h : compare a b = 0) : a = b := by
  have hsame := (compare_eq_zero_iff (hK.inet a ha) (hK.inet b hb)).1 h
  cases a with
  | inet l lport =>
    cases b with
    | inet r rport => exact hsame
    | inet6 r rport f s => exact absurd (mapped_iff.1 hsame.1).1 (hK.unmixed _ _ _ _ _ _ ha hb)
    | other f h => exact (hK.inet _ hb).elim
  | inet6 l lport f s =>
    cases b with
    | inet r rport => exact absurd (mapped_iff.1 hsame.1).1 (hK.unmixed _ _ _ _ _ _ hb ha)
    | inet6 r rport f s => exact hsame
    | other f h => exact (hK.inet _ hb).elim
  | other f h => exact (hK.inet _ ha).elim

end

end NetworkAddress

/-! ### The sessions -/

/-- What `udp_transport` does with the entry of an address in `sessions_`. -/
inductive SessionOp (κ V : Type)
  | access (address : κ)
  | modify (address : κ) (f : V → V)
  | erase (address : κ)

section Sessions

variable {κ V : Type} {cmp : κ → κ → Ordering} (new : V)

/-- `sessions_[address]` makes a new entry if there is none. -/
def applyOp (sessions : Std.TreeMap κ V cmp) : SessionOp κ V → Std.TreeMap κ V cmp
  | .access address => sessions.insertIfNew address new
  | .modify address f => sessions.modify address f
  | .erase address => sessions.erase address

def runOps (ops : List (SessionOp κ V)) : Std.TreeMap κ V cmp := ops.foldl (applyOp new) ∅

/-- One state for each endpoint, and none for those that were erased or never seen. -/
noncomputable def applyHeld (held : κ → Option V) (op : SessionOp κ V) : κ → Option V :=
  open Classical in
  match op with
  | .access address => Function.update held address (some ((held address).getD new))
  | .modify address f => Function.update held address ((held address).map f)
  | .erase address => Function.update held address none

noncomputable def runHeld (ops : List (SessionOp κ V)) : κ → Option V :=
  ops.foldl (applyHeld new) fun _ => none

variable [Std.TransCmp cmp] [Std.LawfulEqCmp cmp]

theorem applyOp_held {sessions : Std.TreeMap κ V cmp} {held : κ → Option V}
    (h : ∀ k, sessions[k]? = held k) (op : SessionOp κ V) (k : κ) :
    (applyOp new sessions op)[k]? = applyHeld new held op k := by
  classical
  have hself : ∀ k : κ, cmp k k = .eq := fun _ => Std.ReflCmp.compare_self
  have hne : ∀ {address : κ}, address ≠ k → cmp address k ≠ .eq :=
    fun hne heq => hne (Std.LawfulEqCmp.eq_of_compare heq)
  cases op with
  | access address =>
    rw [applyOp, applyHeld, Std.TreeMap.getElem?_insertIfNew]
    obtain rfl | hk := eq_or_ne address k
    · rw [Function.update_self, ← h address]
      by_cases hmem : address ∈ sessions
      · rw [if_neg fun hand => hand.2 hmem]
        obtain ⟨v, hv⟩ := Option.isSome_iff_exists.1 (Std.TreeMap.mem_iff_isSome_getElem?.1 hmem)
        rw [hv]
        rfl
      · rw [if_pos ⟨hself address, hmem⟩, Std.TreeMap.getElem?_eq_none hmem]
        rfl
    · rw [if_neg fun hand => hne hk hand.1, Function.update_of_ne hk.symm, h]
  | modify address f =>
    rw [applyOp, applyHeld, Std.TreeMap.getElem?_modify]
    obtain rfl | hk := eq_or_ne address k
    · rw [if_pos (hself address), Function.update_self, h]
    · rw [if_neg (hne hk), Function.update_of_ne hk.symm, h]
  | erase address =>
    rw [applyOp, applyHeld, Std.TreeMap.getElem?_erase]
    obtain rfl | hk := eq_or_ne address k
    · rw [if_pos (hself address), Function.update_self]
    · rw [if_neg (hne hk), Function.update_of_ne hk.symm, h]

theorem runOps_held (ops : List (SessionOp κ V)) (k : κ) :
    (runOps new ops : Std.TreeMap κ V cmp)[k]? = runHeld new ops k := by
  have hrun : ∀ (sessions : Std.TreeMap κ V cmp) (held : κ → Option V),
      (∀ k, sessions[k]? = held k) →
        ∀ k, (ops.foldl (applyOp new) sessions)[k]? = ops.foldl (applyHeld new) held k := by
    induction ops with
    | nil => exact fun _ _ h => h
    | cons op ops ih => exact fun _ _ h => ih _ _ (applyOp_held new h op)
  exact hrun _ _ (fun _ => Std.TreeMap.getElem?_emptyc) k

end Sessions

namespace NetworkAddress

/-- The order of the keys of the map. -/
def order (K : Set NetworkAddress) (a b : K) : Ordering := Ord.compare (compare a.1 b.1) 0

/-- 10.0.0.1 and 2001:db8::1, both with port 80. -/
def twoEndpoints : Set NetworkAddress :=
  {.inet #v[10, 0, 0, 1] 0x5000,
    .inet6 #v[0x20, 1, 0x0d, 0xb8, 0, 0, 0, 0, 0, 0, 0, 0, 0, 0, 0, 1] 0x5000 0 0}

theorem endpoints_two : Endpoints twoEndpoints where
  inet := by
    rintro a (rfl | rfl) <;> exact trivial
  unmixed := by
    rintro l lport r rport f s - (h | h)
    · cases h
    · cases h
      decide
  addr := by
    refine ⟨word [10, 0, 0, 1], ?_⟩
    rintro w ⟨a, port, h | h, rfl⟩
    · cases h
      decide +kernel
    · cases h
  flowinfo := by
    refine fun a port => ⟨0, ?_⟩
    rintro f ⟨s, h | h⟩
    · cases h
    · cases h
      decide
  scopeId := by
    refine fun a port f => ⟨0, ?_⟩
    rintro s (h | h)
    · cases h
    · cases h
      decide

def v4 (a b c d : UInt8) : NetworkAddress := .inet #v[a, b, c, d] 0x5000

def mapped (a b c d : UInt8) : NetworkAddress :=
  .inet6 #v[0, 0, 0, 0, 0, 0, 0, 0, 0, 0, 0xff, 0xff, a, b, c, d] 0x5000 0 0

end NetworkAddress

end Vds.Network
