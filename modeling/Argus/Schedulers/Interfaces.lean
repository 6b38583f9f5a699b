import Argus.Lib.JsText
import Argus.Schedulers.SnmpValues
import Mathlib.Data.List.Dedup
import Mathlib.Logic.Function.Basic

namespace Argus.Schedulers

/-!
# Throughput of interfaces

A poll reads the octet counters of every interface, those of 64 bits or else those of 32 bits, and
compares them with what the last poll has left in a cache.  The cache does not tell which counters
these were.

* `NicPoll` — what a device answers to the walks of a poll.
* `collectNics` — the interfaces of `collectStandard`, over the cache.
* `lastStored`, `nicCacheAfter_eq` — the cache has the counters of the last poll that was stored.
* `LikeWithLike` — a rate is the increase of one counter.
* `throughput_of_steady` — runs in which every rate is.
-/

/-! ### Polls -/

inductive Direction
  | rx
  | tx
deriving DecidableEq, Repr

/-- The octet counters of an interface: `ifHCInOctets` and `ifHCOutOctets` have 64 bits, `ifInOctets`
    and `ifOutOctets` 32. -/
inductive Width
  | hc
  | low
deriving DecidableEq, Repr

/-- The walks of a poll, by the index of the interface, and the time when they were done. -/
structure NicPoll where
  now : ℤ
  ifTypes : List (ℕ × SnmpValue) := []
  ifDescr : List (ℕ × SnmpValue) := []
  ifMac : List (ℕ × SnmpValue) := []
  octets : Width → Direction → List (ℕ × SnmpValue)
  ipMap : List (ℕ × List String) := []

/-- `m.get(idx)`, where `null` is passed over by `??`. -/
def readIdx (m : List (ℕ × SnmpValue)) (idx : ℕ) : Option SnmpValue :=
  (m.lookup idx).filter (· ≠ .null)

/-- An entry of `nicCache`. -/
structure NicEntry where
  octets : Direction → ℤ
  stamp : ℤ

abbrev NicCache := ℕ → Option NicEntry

structure SnmpNic where
  name : String
  mac : Option String
  ips : List String
  /-- `rxBps` and `txBps`. -/
  bps : Direction → Option ℚ

namespace NicPoll

variable (p : NicPoll)

/-- The counter that is read for a direction. -/
def counter (dir : Direction) (idx : ℕ) : Option (Width × SnmpValue) :=
  ((readIdx (p.octets .hc dir) idx).map (Prod.mk .hc)).or
    ((readIdx (p.octets .low dir) idx).map (Prod.mk .low))

/-- `inB` and `outB`; an interface without a counter has zero. -/
def bytes (dir : Direction) (idx : ℕ) : ℤ :=
  ((p.counter dir idx).map fun c => toBigInt c.2).getD 0

/-- `inB > 0n || outB > 0n`. -/
def moved (idx : ℕ) : Bool := decide (0 < p.bytes .rx idx ∨ 0 < p.bytes .tx idx)

/-- The interfaces of a poll, in the order of their indexes. -/
def ifIdx : List ℕ :=
  (p.ifDescr.map Prod.fst ++ p.ifTypes.map Prod.fst ++ p.ipMap.map Prod.fst).dedup.mergeSort
    (· ≤ ·)

/-- `ifType` 24. -/
def loopback (idx : ℕ) : Bool := toBigInt ((p.ifTypes.lookup idx).getD .null) == 24

def name (idx : ℕ) : String :=
  let name := JsText.trim (((readIdx p.ifDescr idx).map renderScalar).getD "")
  if name = "" then "if" ++ toString idx else name

def mac (idx : ℕ) : Option String :=
  let mac := formatMac ((p.ifMac.lookup idx).getD .null)
  if mac = "" then none else some mac

/-- An increase over so many milliseconds, in bytes a second.  The operations are those of floating
    point. -/
def rate (increase ms : ℤ) : ℚ :=
  JsNumber.round (JsNumber.round increase / JsNumber.round (ms / 1000))

/-- `rxBps` and `txBps`. -/
def bps (idx : ℕ) (dir : Direction) : Option NicEntry → Option ℚ
  | none => none
  | some prev =>
    if prev.stamp < p.now ∧ p.moved idx = true ∧ prev.octets dir ≤ p.bytes dir idx then
      some (rate (p.bytes dir idx - prev.octets dir) (p.now - prev.stamp))
    else none

/-- An interface, given its entry in the cache. -/
def nic (idx : ℕ) (prev : Option NicEntry) : SnmpNic where
  name := p.name idx
  mac := p.mac idx
  ips := (p.ipMap.lookup idx).getD []
  bps dir := p.bps idx dir prev

/-- What the cache has of an interface afterwards. -/
def store (idx : ℕ) (cache : NicCache) : NicCache :=
  if p.moved idx then
    Function.update cache idx (some ⟨fun dir => p.bytes dir idx, p.now⟩)
  else cache

/-- The loop over the interfaces; the sample has them without their indexes. -/
def collectLoop : List ℕ → NicCache → List (ℕ × SnmpNic) × NicCache
  | [], cache => ([], cache)
  | idx :: rest, cache =>
    if p.loopback idx then collectLoop rest cache
    else
      let (nics, after) := collectLoop rest (p.store idx cache)
      ((idx, p.nic idx (cache idx)) :: nics, after)

/-- The interfaces of `collectStandard`. -/
def collectNics (cache : NicCache) : List (ℕ × SnmpNic) × NicCache :=
  p.collectLoop p.ifIdx cache

end NicPoll

/-! ### Runs -/

/-- The cache after these polls of a device. -/
def nicCacheAfter (polls : List NicPoll) : NicCache :=
  polls.foldl (fun cache p => (p.collectNics cache).2) fun _ => none

/-- The poll has left the counters of an interface in the cache. -/
def NicPoll.stores (p : NicPoll) (idx : ℕ) : Bool :=
  decide (idx ∈ p.ifIdx) && !p.loopback idx && p.moved idx

/-- The last of these polls that has. -/
def lastStored (polls : List NicPoll) (idx : ℕ) : Option NicPoll :=
  polls.reverse.find? fun p => p.stores idx

def NicPoll.entry (p : NicPoll) (idx : ℕ) : NicEntry := ⟨fun dir => p.bytes dir idx, p.now⟩

namespace NicPoll

variable {p : NicPoll}

theorem nodup_ifIdx (p : NicPoll) : p.ifIdx.Nodup :=
  (List.mergeSort_perm _ _).nodup_iff.mpr (List.nodup_dedup _)

theorem store_self (cache : NicCache) (idx : ℕ) :
    p.store idx cache idx = if p.moved idx = true then some (p.entry idx) else cache idx := by
  rw [store]
  split
  · exact Function.update_self _ _ _
  · rfl

theorem store_of_ne {i idx : ℕ} (hne : idx ≠ i) (cache : NicCache) :
    p.store i cache idx = cache idx := by
  rw [store]
  split
  · exact Function.update_of_ne hne _ _
  · rfl

/-- What the loop does to an interface that has no turn. -/
theorem collectLoop_of_notMem {l : List ℕ} {idx : ℕ} (h : idx ∉ l) (cache : NicCache) :
    (p.collectLoop l cache).2 idx = cache idx := by
  induction l generalizing cache with
  | nil => rfl
  | cons i l ih =>
    rw [List.mem_cons, not_or] at h
    rw [collectLoop]
    split
    · exact ih h.2 cache
    · exact (ih h.2 (p.store i cache)).trans (store_of_ne h.1 cache)

/-- What the loop leaves of an interface. -/
theorem collectLoop_cache {l : List ℕ} (hnodup : l.Nodup) (cache : NicCache) (idx : ℕ) :
    (p.collectLoop l cache).2 idx
      = if idx ∈ l ∧ p.loopback idx = false ∧ p.moved idx = true then some (p.entry idx)
        else cache idx := by
  induction l generalizing cache with
  | nil =>
    rw [if_neg (fun h => List.not_mem_nil h.1)]
    rfl
  | cons i l ih =>
    obtain ⟨hfresh, hrest⟩ := List.nodup_cons.mp hnodup
    rw [collectLoop]
    by_cases hidx : idx = i
    · subst hidx
      split
      · rename_i hloop
        rw [collectLoop_of_notMem hfresh, if_neg]
        rintro ⟨-, hnot, -⟩
        rw [hnot] at hloop
        cases hloop
      · rename_i hloop
        show (p.collectLoop l (p.store idx cache)).2 idx = _
        have hnot : p.loopback idx = false := (Bool.not_eq_true _).mp hloop
        rw [collectLoop_of_notMem hfresh, store_self]
        refine if_congr ?_ rfl rfl
        exact ⟨fun h => ⟨List.mem_cons_self, hnot, h⟩, fun h => h.2.2⟩
    · have hmem : idx ∈ i :: l ↔ idx ∈ l := by
        rw [List.mem_cons]
        exact or_iff_right hidx
      have hturn : (idx ∈ i :: l ∧ p.loopback idx = false ∧ p.moved idx = true)
          ↔ (idx ∈ l ∧ p.loopback idx = false ∧ p.moved idx = true) := and_congr_left' hmem
      rw [if_congr hturn rfl rfl]
      split
      · exact ih hrest cache
      · show (p.collectLoop l (p.store i cache)).2 idx = _
        rw [ih hrest, store_of_ne hidx]

/-- What the loop says of an interface: it looks at what the cache has had of it. -/
theorem mem_collectLoop {l : List ℕ} (hnodup : l.Nodup) {cache : NicCache} {idx : ℕ} {nic : SnmpNic}
    (h : (idx, nic) ∈ (p.collectLoop l cache).1) :
    idx ∈ l ∧ p.loopback idx = false ∧ nic = p.nic idx (cache idx) := by
  induction l generalizing cache with
  | nil => exact absurd h List.not_mem_nil
  | cons i l ih =>
    obtain ⟨hfresh, hrest⟩ := List.nodup_cons.mp hnodup
    rw [collectLoop] at h
    split at h
    · obtain ⟨hmem, hloop, hnic⟩ := ih hrest h
      exact ⟨List.mem_cons_of_mem i hmem, hloop, hnic⟩
    · rename_i hloop
      rcases List.mem_cons.mp h with heq | h
      · obtain ⟨rfl, rfl⟩ := Prod.mk.inj heq
        exact ⟨List.mem_cons_self, Bool.not_eq_true _ |>.mp hloop, rfl⟩
      · obtain ⟨hmem, hother, hnic⟩ := ih hrest h
        have hne : idx ≠ i := fun heq => hfresh (heq ▸ hmem)
        rw [store_of_ne hne] at hnic
        exact ⟨List.mem_cons_of_mem i hmem, hother, hnic⟩

theorem collectNics_cache (p : NicPoll) (cache : NicCache) (idx : ℕ) :
    (p.collectNics cache).2 idx = if p.stores idx then some (p.entry idx) else cache idx := by
  rw [collectNics, collectLoop_cache p.nodup_ifIdx]
  refine if_congr ?_ rfl rfl
  rw [stores, Bool.and_eq_true, Bool.and_eq_true, decide_eq_true_eq, Bool.not_eq_true', and_assoc]

end NicPoll

theorem lastStored_append (polls : List NicPoll) (p : NicPoll) (idx : ℕ) :
    lastStored (polls ++ [p]) idx = if p.stores idx then some p else lastStored polls idx := by
  rw [lastStored, List.reverse_append, List.reverse_singleton, List.singleton_append,
    List.find?_cons]
  cases p.stores idx with
  | true => rfl
  | false => rfl

/-- The cache has the counters of the last poll that was stored. -/
theorem nicCacheAfter_eq (polls : List NicPoll) (idx : ℕ) :
    nicCacheAfter polls idx = (lastStored polls idx).map fun q => q.entry idx := by
  induction polls using List.reverseRecOn with
  | nil => rfl
  | append_singleton polls p ih =>
    have hstep : nicCacheAfter (polls ++ [p]) = (p.collectNics (nicCacheAfter polls)).2 :=
      List.foldl_concat _ _ _ _
    rw [hstep, p.collectNics_cache, lastStored_append, ih]
    split
    · rfl
    · rfl

theorem mem_of_lastStored {polls : List NicPoll} {idx : ℕ} {q : NicPoll}
    (h : lastStored polls idx = some q) : q ∈ polls :=
  List.mem_reverse.mp (List.mem_of_find?_eq_some h)

theorem stores_of_lastStored {polls : List NicPoll} {idx : ℕ} {q : NicPoll}
    (h : lastStored polls idx = some q) : q.stores idx = true := by
  rw [lastStored] at h
  have hfound := List.find?_some h
  exact hfound

/-! ### Like with like -/

/-- A rate is the increase of one counter between two polls that have both read it, over the time
    between them. -/
def LikeWithLike (past : List NicPoll) (p : NicPoll) (idx : ℕ) (dir : Direction) (r : ℚ) : Prop :=
  ∃ q ∈ past, ∃ width v v', readIdx (q.octets width dir) idx = some v ∧
    readIdx (p.octets width dir) idx = some v' ∧ q.now < p.now ∧
      r = NicPoll.rate (toBigInt v' - toBigInt v) (p.now - q.now)

/-- Every rate of a run is like that, and not negative. -/
def ThroughputRight (polls : List NicPoll) : Prop :=
  ∀ past p rest, polls = past ++ p :: rest →
    ∀ idx nic, (idx, nic) ∈ (p.collectNics (nicCacheAfter past)).1 →
      ∀ dir r, nic.bps dir = some r → LikeWithLike past p idx dir r ∧ 0 ≤ r

/-- A poll compares every counter that has not gone back with the same one: the last poll that was
    stored has read it, too. -/
def Steady (past : List NicPoll) (p : NicPoll) : Prop :=
  ∀ idx q, lastStored past idx = some q → q.now < p.now → p.stores idx = true →
    ∀ dir, q.bytes dir idx ≤ p.bytes dir idx →
      ∃ width v v', q.counter dir idx = some (width, v) ∧ p.counter dir idx = some (width, v')

theorem round_nonneg {q : ℚ} (h : 0 ≤ q) : 0 ≤ JsNumber.round q := by
  have htwo : (0 : ℚ) < 2 ^ JsNumber.lastPlace q := zpow_pos two_pos _
  have hfloor : 0 ≤ ⌊q / 2 ^ JsNumber.lastPlace q⌋ := Int.floor_nonneg.mpr (div_nonneg h htwo.le)
  have heven : 0 ≤ JsNumber.roundEven (q / 2 ^ JsNumber.lastPlace q) :=
    hfloor.trans (JsNumber.floor_le_roundEven _)
  exact mul_nonneg (Int.cast_nonneg heven) htwo.le

theorem rate_nonneg {increase ms : ℤ} (hincrease : 0 ≤ increase) (hms : 0 ≤ ms) :
    0 ≤ NicPoll.rate increase ms := by
  have hms' : (0 : ℚ) ≤ (ms : ℚ) / 1000 := div_nonneg (Int.cast_nonneg hms) (by norm_num)
  apply round_nonneg
  apply div_nonneg
  · exact round_nonneg (Int.cast_nonneg hincrease)
  · exact round_nonneg hms'

theorem counter_eq_some {p : NicPoll} {dir : Direction} {idx : ℕ} {width : Width} {v : SnmpValue}
    (h : p.counter dir idx = some (width, v)) :
    readIdx (p.octets width dir) idx = some v ∧ p.bytes dir idx = toBigInt v := by
  have hbytes : p.bytes dir idx = toBigInt v := by
    rw [NicPoll.bytes, h]
    rfl
  refine ⟨?_, hbytes⟩
  rw [NicPoll.counter, Option.or_eq_some_iff] at h
  rcases h with h | ⟨-, h⟩
  all_goals
    obtain ⟨v', hv', heq⟩ := Option.map_eq_some_iff.mp h
    cases heq
    exact hv'

/-- A rate of a poll is over the last poll that was stored. -/
theorem bps_eq_some {p : NicPoll} {past : List NicPoll} {idx : ℕ} {dir : Direction} {r : ℚ}
    (h : p.bps idx dir (nicCacheAfter past idx) = some r) :
    ∃ q, lastStored past idx = some q ∧ q.now < p.now ∧ p.moved idx = true ∧
      q.bytes dir idx ≤ p.bytes dir idx ∧
        r = NicPoll.rate (p.bytes dir idx - q.bytes dir idx) (p.now - q.now) := by
  rw [nicCacheAfter_eq] at h
  cases hlast : lastStored past idx with
  | none =>
    rw [hlast] at h
    cases h
  | some q =>
    rw [hlast] at h
    simp only [Option.map_some, NicPoll.bps] at h
    split at h
    · rename_i hcond
      obtain ⟨hnow, hmoved, hle⟩ := hcond
      exact ⟨q, rfl, hnow, hmoved, hle, (Option.some.inj h).symm⟩
    · cases h

theorem nic_of_mem {p : NicPoll} {cache : NicCache} {idx : ℕ} {nic : SnmpNic}
    (h : (idx, nic) ∈ (p.collectNics cache).1) : nic = p.nic idx (cache idx) :=
  (NicPoll.mem_collectLoop p.nodup_ifIdx h).2.2

theorem stores_of_mem {p : NicPoll} {cache : NicCache} {idx : ℕ} {nic : SnmpNic}
    (h : (idx, nic) ∈ (p.collectNics cache).1) (hmoved : p.moved idx = true) :
    p.stores idx = true := by
  obtain ⟨hmem, hloop, -⟩ := NicPoll.mem_collectLoop p.nodup_ifIdx h
  rw [NicPoll.stores, decide_eq_true hmem, hloop, hmoved]
  rfl

/-- No rate is negative, and where each counter is compared with itself every rate is right. -/
theorem throughput_of_steady (polls : List NicPoll) :
    (∀ past p rest, polls = past ++ p :: rest →
      ∀ idx nic, (idx, nic) ∈ (p.collectNics (nicCacheAfter past)).1 →
        ∀ dir r, nic.bps dir = some r → 0 ≤ r) ∧
    ((∀ past p rest, polls = past ++ p :: rest → Steady past p) → ThroughputRight polls) := by
  have hnonneg : ∀ past p rest, polls = past ++ p :: rest →
      ∀ idx nic, (idx, nic) ∈ (p.collectNics (nicCacheAfter past)).1 →
        ∀ dir r, nic.bps dir = some r → 0 ≤ r := by
    intro past p rest _ idx nic hnic dir r hr
    rw [nic_of_mem hnic] at hr
    obtain ⟨q, -, hnow, -, hle, rfl⟩ := bps_eq_some hr
    exact rate_nonneg (by omega) (by omega)
  refine ⟨hnonneg, ?_⟩
  intro hsteady past p rest heq idx nic hnic dir r hr
  refine ⟨?_, hnonneg past p rest heq idx nic hnic dir r hr⟩
  rw [nic_of_mem hnic] at hr
  obtain ⟨q, hlast, hnow, hmoved, hle, rfl⟩ := bps_eq_some hr
  have hstores : p.stores idx = true := stores_of_mem hnic hmoved
  obtain ⟨width, v, v', hv, hv'⟩ := hsteady past p rest heq idx q hlast hnow hstores dir hle
  obtain ⟨hread, hbytes⟩ := counter_eq_some hv
  obtain ⟨hread', hbytes'⟩ := counter_eq_some hv'
  refine ⟨q, mem_of_lastStored hlast, width, v, v', hread, hread', hnow, ?_⟩
  rw [hbytes, hbytes']

namespace Sample

/-- A poll of one interface. -/
def poll (now : ℤ) (octets : Width → Direction → List (ℕ × SnmpValue)) : NicPoll where
  now
  ifDescr := [(1, .text "eth0")]
  ifTypes := [(1, .int 6)]
  octets

/-- Counters of one width, with this many octets each. -/
def column (width : Width) (n : ℤ) : Width → Direction → List (ℕ × SnmpValue) :=
  fun w _ => if w = width then [(1, .int n)] else []

theorem poll_ifIdx (now : ℤ) (octets : Width → Direction → List (ℕ × SnmpValue)) :
    (poll now octets).ifIdx = [1] := by
  have hdedup : [1, 1].dedup = [1] := by decide
  show [1, 1].dedup.mergeSort (· ≤ ·) = [1]
  rw [hdedup, List.mergeSort_singleton]

theorem poll_nics (now : ℤ) (octets : Width → Direction → List (ℕ × SnmpValue))
    (cache : NicCache) : ((poll now octets).collectNics cache).1
      = [(1, (poll now octets).nic 1 (cache 1))] := by
  rw [NicPoll.collectNics, poll_ifIdx]
  rfl

end Sample

open Sample in
/-- The 64-bit counters are read every time. -/
theorem throughput_of_steady_hc :
    ThroughputRight [poll 0 (column .hc 100), poll 60000 (column .hc 700)] := by
  apply (throughput_of_steady _).2
  intro past p rest heq idx q hlast _ hstores dir _
  have hmem : ∀ p', p' ∈ [poll 0 (column .hc 100), poll 60000 (column .hc 700)] →
      p'.stores idx = true → ∃ v, p'.counter dir idx = some (.hc, v) := by
    intro p' hp' hstores'
    have hone : idx ∈ p'.ifIdx := by
      rw [NicPoll.stores, Bool.and_eq_true, Bool.and_eq_true, decide_eq_true_eq] at hstores'
      exact hstores'.1.1
    rcases List.mem_pair.mp hp' with rfl | rfl
    all_goals
      rw [poll_ifIdx, List.mem_singleton] at hone
      subst hone
      exact ⟨_, rfl⟩
  have hq : q ∈ past := mem_of_lastStored hlast
  obtain ⟨v, hv⟩ := hmem q (heq ▸ List.mem_append_left _ hq) (stores_of_lastStored hlast)
  obtain ⟨v', hv'⟩ := hmem p (heq ▸ List.mem_append_right _ List.mem_cons_self) hstores
  exact ⟨.hc, v, v', hv, hv'⟩

open Sample in
/-- The 64-bit counters have been dropped by the first poll, and the 32-bit ones by the second. -/
theorem not_throughputRight_dropped : ¬ ∀ polls, ThroughputRight polls := by
  intro h
  let first := poll 0 (column .low 100)
  let second := poll 60000 (column .hc 5000000000)
  have hlast : nicCacheAfter [first] 1 = some (first.entry 1) := by
    rw [nicCacheAfter_eq, lastStored, List.reverse_singleton, List.find?_cons, NicPoll.stores,
      poll_ifIdx]
    rfl
  have hmem : (1, second.nic 1 (some (first.entry 1)))
      ∈ (second.collectNics (nicCacheAfter [first])).1 := by
    rw [poll_nics, hlast]
    exact List.mem_cons_self
  have hlike := h [first, second] [first] second [] rfl 1 _ hmem .rx _ rfl
  obtain ⟨q, hq, width, v, v', hv, hv', -⟩ := hlike.1
  obtain rfl := List.mem_singleton.mp hq
  cases width with
  | hc => cases hv
  | low => cases hv'

end Argus.Schedulers
