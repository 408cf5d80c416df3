import Meld.Proofs.Wiring

namespace Meld.Blueprint

open Arena

namespace Plan

variable {p : Plan} {base now i j n m : Nat} {q r : Place} {place place' : Nat → Place} {g : Guard}

def chain (p : Plan) (base : Nat) (place : Nat → Place) (n : Nat) : List StateId :=
  (List.range n).map fun i => p.stateId base (place i)

theorem chain_getElem (hi : i < n) :
    (p.chain base place n)[i]? = some (p.stateId base (place i)) := by
  rw [chain, List.getElem?_map, List.getElem?_range hi, Option.map_some]

theorem yields_allocChain (h : ∀ i < n, now + i = base + p.index (place i)) :
    Yields (allocChain n) now n [] (p.chain base place n) := by
  refine (Arena.yields_allocChain n).congr rfl rfl ?_
  apply List.map_congr_left
  intro i hi
  rw [stateId, h i (List.mem_range.1 hi)]

theorem yields_put (h : base + p.index q < now) (small : now ≤ UInt32.size) (g : Guard)
    (r : Place) : Yields (put (p.stateId base q) g (p.stateId base r)) now 0
      [p.edit base (q, g, r)] () := by
  have index : (p.stateId base q).toNat = base + p.index q :=
    UInt32.toNat_ofNat_of_lt' (Nat.lt_of_lt_of_le h small)
  have step := yields_change (index ▸ h) (·.insert g (p.stateId base r))
  rw [index] at step
  exact step

theorem yields_lead (hi : i < n) (h : base + p.index q < now) (small : now ≤ UInt32.size)
    (g : Guard) : Yields (lead (p.stateId base q) g (p.chain base place n) i) now 0
      [p.edit base (q, g, place i)] () :=
  (yields_nth (chain_getElem hi)).read (yields_put h small g (place i))

def fragment (p : Plan) (base : Nat) : Fragment :=
  ⟨p.stateId base .start, p.ends.map (p.stateId base)⟩

theorem yields_link (hi : i < n) (hj : j < m) (h : base + p.index (place i) < now)
    (small : now ≤ UInt32.size) (g : Guard) :
    Yields (link (p.chain base place n) i g (p.chain base place' m) j) now 0
      [p.edit base (place i, g, place' j)] () :=
  (yields_nth (chain_getElem hi)).read (yields_lead hj h small g)

end Plan

namespace Track

variable {β : Type} {t : Track} {size base now key pos next : Nat} {guard : Guard}

theorem index_lane_of_open (ho : t.isOpen = true) (key pos : Nat) :
    t.plan.index (.lane key pos) = 1 + t.size + key * t.size + pos := by
  simp only [plan, index, ho, if_true]

theorem index_wilds_of_open (ho : t.isOpen = true) (pos : Nat) :
    t.plan.index (.wilds pos) = 1 + pos := by
  simp only [plan, index, ho, if_true]

theorem index_lane_of_closed (hc : t.isOpen = false) (key pos : Nat) :
    t.plan.index (.lane key pos) = 1 + key * t.size + pos := by
  simp only [plan, index, hc, Bool.false_eq_true, if_false]

theorem index_wilds_of_closed (hc : t.isOpen = false) (pos : Nat) :
    t.plan.index (.wilds pos) = 1 + t.width * t.size + pos := by
  simp only [plan, index, hc, Bool.false_eq_true, if_false]

theorem start_lt (t : Track) (h : base < now) : base + t.plan.index .start < now := h

theorem size_plan (t : Track) : t.plan.size = 1 + t.size + t.width * t.size := by
  have h : t.plan.size = 1 + t.size * (t.width + 1) := t.length_places
  rw [h, Nat.mul_add, Nat.mul_one, Nat.mul_comm]
  omega

/-- The lanes up to one of them have room among all lanes. -/
theorem lane_room (hk : key < t.width) : key * t.size + t.size ≤ t.width * t.size := by
  have room := Nat.mul_le_mul_right t.size (Nat.succ_le_of_lt hk)
  rwa [Nat.succ_mul] at room

/-- The ends of all lanes, and then that of the wild cards. -/
theorem yields_fragment (t : Track) (base now : Nat) (hs : 0 < t.size) :
    Yields (do
      return (⟨t.plan.stateId base .start, (List.range t.width).map (fun key =>
        t.plan.stateId base (.lane key (t.size - 1))) ++
          [← nth (t.plan.chain base .wilds t.size) (t.size - 1)]⟩ : Fragment))
      now 0 [] (t.plan.fragment base) := by
  have last : t.size - 1 < t.size := Nat.sub_lt hs Nat.zero_lt_one
  refine (yields_nth (Plan.chain_getElem last)).read ((yields_pure _).congr rfl rfl ?_)
  simp only [Plan.fragment, plan, ends, List.map_append, List.map_map, List.map_singleton]
  rfl

/-- Each position but the last has the next one ahead; what is ahead of the last is told apart. -/
theorem steps_eq (hs : 0 < t.size) : t.steps =
    (List.range (t.size - 1)).map (fun pos => (pos, pos + 1)) ++
      if t.isOpen then [(t.size - 1, t.size - 1)] else [] := by
  have size : t.size = t.size - 1 + 1 := by omega
  have inner : ∀ pos ∈ List.range (t.size - 1),
      ((t.after? pos).map (pos, ·)).toList = [(pos, pos + 1)] := by
    intro pos hp
    rw [List.mem_range] at hp
    rw [after?, if_pos (by omega)]
    rfl
  have last : ((t.after? (t.size - 1)).map (t.size - 1, ·)).toList =
      if t.isOpen then [(t.size - 1, t.size - 1)] else [] := by
    rw [after?, if_neg (by omega)]
    split <;> rfl
  rw [steps, size, List.range_succ, ← size, List.flatMap_append, List.flatMap_singleton,
    List.flatMap_congr inner, last, List.map_eq_flatMap]

theorem map_flatMap_steps_of_open (ho : t.isOpen = true) (hs : 0 < t.size)
    (f : Nat × Nat → List Wire) (e : Wire → β) : (t.steps.flatMap f).map e =
      ((List.range (t.size - 1)).flatMap fun pos => (f (pos, pos + 1)).map e) ++
        (f (t.size - 1, t.size - 1)).map e := by
  rw [steps_eq hs, if_pos ho, List.flatMap_append, List.map_append, List.flatMap_map,
    List.map_flatMap, List.flatMap_singleton]

theorem map_flatMap_steps_of_closed (hc : t.isOpen = false) (hs : 0 < t.size)
    (f : Nat × Nat → List Wire) (e : Wire → β) : (t.steps.flatMap f).map e =
      (List.range (t.size - 1)).flatMap fun pos => (f (pos, pos + 1)).map e := by
  rw [steps_eq hs, hc, if_neg Bool.false_ne_true, List.append_nil, List.flatMap_map,
    List.map_flatMap]

theorem map_openWires (ho : t.isOpen = true) (hs : 0 < t.size) (e : Wire → β) :
    t.openWires.map e = e (.start, wild, .wilds 0) ::
      ((List.range (t.size - 1)).flatMap fun pos => [e (.wilds pos, wild, .wilds (pos + 1))]) ++
        [e (.wilds (t.size - 1), wild, .wilds (t.size - 1))] ++
        (List.range t.width).flatMap fun key => (t.keyWires key).map e := by
  rw [openWires, List.map_append, List.map_cons, map_flatMap_steps_of_open ho hs, List.map_flatMap]
  rfl

section

variable (ho : t.isOpen = true) (small : base + t.plan.size ≤ UInt32.size)

include ho small

theorem yields_share (hk : key < t.width) (hg : t.want key next = guard)
    (hp : pos < t.size) (hn : next < t.size) :
    Yields (share (t.plan.chain base .wilds t.size) (t.plan.chain base (.lane key) t.size) guard
      pos next) (base + 1 + t.size + key * t.size + t.size) 0
      ((t.sharedWires key (pos, next)).map (t.plan.edit base)) () := by
  have room := lane_room hk
  rw [size_plan] at small
  have here : base + 1 + t.size + key * t.size + t.size ≤ UInt32.size := by omega
  have lane : base + t.plan.index (.lane key pos) <
      base + 1 + t.size + key * t.size + t.size := by
    rw [index_lane_of_open ho]
    omega
  have wilds : base + t.plan.index (.wilds pos) <
      base + 1 + t.size + key * t.size + t.size := by
    rw [index_wilds_of_open ho]
    omega
  rw [sharedWires, laneWires, giveWay, hg]
  exact (Plan.yields_link hp hn lane here guard).seq
    ((Plan.yields_link hp hn lane here wild).seq (Plan.yields_link hp hn wilds here guard))

/-- The chain of a key is its lane. -/
theorem yields_keyChain (hs : 0 < t.size) (hk : key < t.width)
    (hg : ∀ pos, t.want key pos = guard) :
    Yields (keyChain (t.plan.stateId base .start) (t.plan.chain base .wilds t.size) t.size guard)
      (base + 1 + t.size + key * t.size) t.size
      ((t.keyWires key).map (t.plan.edit base))
      (t.plan.stateId base (.lane key (t.size - 1))) := by
  have room := lane_room hk
  have total := t.size_plan
  have last : t.size - 1 < t.size := Nat.sub_lt hs Nat.zero_lt_one
  have chain : Yields (allocChain t.size) (base + 1 + t.size + key * t.size) t.size []
      (t.plan.chain base (.lane key) t.size) :=
    Plan.yields_allocChain fun i _ => by
      rw [index_lane_of_open ho]
      omega
  have first : Yields (lead (t.plan.stateId base .start) guard
      (t.plan.chain base (.lane key) t.size) 0) (base + 1 + t.size + key * t.size + t.size) 0
      [t.plan.edit base (.start, guard, .lane key 0)] () :=
    Plan.yields_lead hs (t.start_lt (by omega)) (by omega) guard
  have loop : Yields ((List.range (t.size - 1)).forM fun pos =>
      share (t.plan.chain base .wilds t.size) (t.plan.chain base (.lane key) t.size) guard pos
        (pos + 1)) (base + 1 + t.size + key * t.size + t.size) 0
      ((List.range (t.size - 1)).flatMap fun pos =>
        (t.sharedWires key (pos, pos + 1)).map (t.plan.edit base)) () := by
    apply yields_forM_range
    intro pos hp
    exact yields_share ho small hk (hg _) (by omega) (by omega)
  have final : Yields (nth (t.plan.chain base (.lane key) t.size) (t.size - 1))
      (base + 1 + t.size + key * t.size + t.size) 0 []
      (t.plan.stateId base (.lane key (t.size - 1))) := yields_nth (Plan.chain_getElem last)
  refine (chain.bind (first.seq (loop.seq
    ((yields_share ho small hk (hg _) last last).seq final)))).congr rfl ?_ rfl
  rw [keyWires, List.map_cons, map_flatMap_steps_of_open ho hs, hg, List.append_nil]
  rfl

end

theorem want_group {keys : List Guard} (hk : key < keys.length) (size pos : Nat) :
    (group keys size).want key pos = keys[key] := by
  change keys.getD key wild = _
  rw [List.getD_eq_getElem?_getD, List.getElem?_eq_getElem hk, Option.getD_some]

theorem yields_group {keys : List Guard} (ht : group keys size = t) (hs : 0 < size)
    (small : base + t.plan.size ≤ UInt32.size) :
    Yields (Arena.group keys size) base t.plan.size (t.openWires.map (t.plan.edit base))
      (t.plan.fragment base) := by
  have ho : t.isOpen = true := by rw [← ht, group]
  obtain rfl : t.size = size := by rw [← ht, group]
  have width : t.width = keys.length := by rw [← ht, group]
  have total := t.size_plan
  have last : t.size - 1 < t.size := Nat.sub_lt hs Nat.zero_lt_one
  have now_small : base + 1 + t.size ≤ UInt32.size := by omega
  have start : base + t.plan.index .start < base + 1 + t.size := t.start_lt (by omega)
  have wilds : Yields (allocChain t.size) (base + 1) t.size [] (t.plan.chain base .wilds t.size) :=
    Plan.yields_allocChain fun i _ => by
      rw [index_wilds_of_open ho]
      omega
  have step {pos next : Nat} (hp : pos < t.size) (hn : next < t.size) :
      Yields (link (t.plan.chain base .wilds t.size) pos wild
        (t.plan.chain base .wilds t.size) next) (base + 1 + t.size) 0
        [t.plan.edit base (.wilds pos, wild, .wilds next)] () := by
    refine Plan.yields_link hp hn ?_ now_small wild
    rw [index_wilds_of_open ho]
    omega
  have loop : Yields ((List.range (t.size - 1)).forM fun pos =>
      link (t.plan.chain base .wilds t.size) pos wild (t.plan.chain base .wilds t.size) (pos + 1))
      (base + 1 + t.size) 0 ((List.range (t.size - 1)).flatMap fun pos =>
        [t.plan.edit base (.wilds pos, wild, .wilds (pos + 1))]) () := by
    apply yields_forM_range
    intro pos hp
    exact step (by omega) (by omega)
  have lanes : Yields (keys.mapM
      (keyChain (t.plan.stateId base .start) (t.plan.chain base .wilds t.size) t.size))
      (base + 1 + t.size) (t.width * t.size)
      ((List.range t.width).flatMap fun key => (t.keyWires key).map (t.plan.edit base))
      ((List.range t.width).map fun key => t.plan.stateId base (.lane key (t.size - 1))) := by
    rw [width]
    apply yields_mapM
    intro key hk
    exact yields_keyChain ho small hs (width ▸ hk) fun pos => ht ▸ want_group hk _ pos
  refine (yields_alloc.bind (wilds.bind ((Plan.yields_lead hs start now_small wild).seq
    (loop.seq ((step last last).seq (lanes.bind (t.yields_fragment base _ hs))))))).congr ?_ ?_ rfl
  · rw [size_plan]
    omega
  · rw [map_openWires ho hs]
    simp only [List.nil_append, List.append_nil, List.append_assoc, List.cons_append]

section

variable (hc : t.isOpen = false) (small : base + t.plan.size ≤ UInt32.size)
  (hr : ∀ key < t.width, ∀ pos < t.size, rankKeys[key + pos]? = some (t.want key pos))

include hc small hr

/-- The ranks from the first one of a lane on are what it asks for. -/
theorem yields_rankChain (hs : 0 < t.size) (hk : key < t.width) :
    Yields (rankChain (t.plan.stateId base .start) t.size
      (t.plan.chain base (.lane key) t.size, key)) (base + 1 + t.width * t.size) 0
      ((t.rankWires key).map (t.plan.edit base)) () := by
  have room := lane_room hk
  rw [size_plan] at small
  have here : base + 1 + t.width * t.size ≤ UInt32.size := by omega
  have first : Yields (lead (t.plan.stateId base .start) (t.want key 0)
      (t.plan.chain base (.lane key) t.size) 0) (base + 1 + t.width * t.size) 0
      [t.plan.edit base (.start, t.want key 0, .lane key 0)] () :=
    Plan.yields_lead hs (t.start_lt (by omega)) here _
  have loop : Yields ((List.range (t.size - 1)).forM fun pos => do
      let rank ← nth rankKeys (key + (pos + 1))
      link (t.plan.chain base (.lane key) t.size) pos rank
        (t.plan.chain base (.lane key) t.size) (pos + 1)
      link (t.plan.chain base (.lane key) t.size) pos wild
        (t.plan.chain base (.lane key) t.size) (pos + 1)) (base + 1 + t.width * t.size) 0
      ((List.range (t.size - 1)).flatMap fun pos =>
        (t.laneWires key (pos, pos + 1)).map (t.plan.edit base)) () := by
    apply yields_forM_range
    intro pos hp
    have lane : base + t.plan.index (.lane key pos) < base + 1 + t.width * t.size := by
      rw [index_lane_of_closed hc]
      omega
    have hp : pos < t.size := by omega
    have hn : pos + 1 < t.size := by omega
    exact (yields_nth (hr key hk (pos + 1) hn)).read
      ((Plan.yields_link hp hn lane here _).seq (Plan.yields_link hp hn lane here wild))
  refine ((yields_nth (hr key hk 0 hs)).read (first.seq loop)).congr rfl ?_ rfl
  rw [rankWires, List.map_cons, map_flatMap_steps_of_closed hc hs]
  rfl

theorem yields_wildRow (hn : pos + 1 < t.size) :
    Yields (wildRow (t.plan.chain base .wilds t.size)
      ((List.range t.width).map fun key => t.plan.chain base (.lane key) t.size) pos)
      (base + 1 + t.width * t.size + t.size) 0
      ((t.wildWires (pos, pos + 1)).map (t.plan.edit base)) () := by
  have hp : pos < t.size := by omega
  rw [size_plan] at small
  have here : base + 1 + t.width * t.size + t.size ≤ UInt32.size := by omega
  have wilds : base + t.plan.index (.wilds pos) < base + 1 + t.width * t.size + t.size := by
    rw [index_wilds_of_closed hc]
    omega
  have lanes : Yields (((List.range t.width).map fun key =>
      t.plan.chain base (.lane key) t.size).zipIdx.forM
        (Arena.giveWay (t.plan.chain base .wilds t.size) pos))
      (base + 1 + t.width * t.size + t.size) 0
      ((List.range t.width).flatMap fun key => [t.plan.edit base (t.giveWay (pos, pos + 1) key)])
      () := by
    apply yields_forM_zipIdx
    intro key hk
    exact (yields_nth (hr key hk (pos + 1) hn)).read (Plan.yields_link hp hn wilds here _)
  refine ((Plan.yields_link hp hn wilds here wild).seq lanes).congr rfl ?_ rfl
  rw [wildWires, List.map_cons, List.map_map, ← List.map_eq_flatMap]
  rfl

end

theorem want_run {key size pos : Nat} (hk : key < (run size).width) (hp : pos < size)
    (hl : size ≤ 12) : rankKeys[key + pos]? = some ((run size).want key pos) := by
  change key < 13 - size at hk
  have ranks : rankKeys.length = 12 := rfl
  have hi : key + pos < rankKeys.length := by omega
  change _ = some (((rankKeys.drop pos).take (13 - size)).getD key wild)
  rw [List.getD_eq_getElem?_getD, List.getElem?_take_of_lt hk, List.getElem?_drop,
    Nat.add_comm pos, List.getElem?_eq_getElem hi, Option.getD_some]

theorem yields_run (ht : run size = t) (hs : 0 < size) (hl : size ≤ 12)
    (small : base + t.plan.size ≤ UInt32.size) :
    Yields (Arena.run size) base t.plan.size (t.closedWires.map (t.plan.edit base))
      (t.plan.fragment base) := by
  have hc : t.isOpen = false := by rw [← ht, run]
  obtain rfl : t.size = size := by rw [← ht, run]
  have width : rankKeys.length - t.size + 1 = t.width := by
    rw [← ht]
    change 12 - t.size + 1 = 13 - t.size
    omega
  have ranks : ∀ key < t.width, ∀ pos < t.size, rankKeys[key + pos]? = some (t.want key pos) := by
    intro key hk pos hp
    rw [← ht] at hk ⊢
    exact want_run hk hp hl
  have total := t.size_plan
  have last : t.size - 1 < t.size := Nat.sub_lt hs Nat.zero_lt_one
  have now_small : base + 1 + t.width * t.size + t.size ≤ UInt32.size := by omega
  have start : base + t.plan.index .start < base + 1 + t.width * t.size + t.size :=
    t.start_lt (by omega)
  have chains : Yields ((List.range t.width).mapM fun _ => allocChain t.size) (base + 1)
      (t.width * t.size) []
      ((List.range t.width).map fun key => t.plan.chain base (.lane key) t.size) := by
    have lane : ∀ key < t.width, Yields (allocChain t.size) (base + 1 + key * t.size) t.size []
        (t.plan.chain base (.lane key) t.size) :=
      fun key _ => Plan.yields_allocChain fun i _ => by
        rw [index_lane_of_closed hc]
        omega
    exact (yields_mapM_range lane).congr rfl (flatMap_nil _) rfl
  have lanes : Yields (((List.range t.width).map fun key =>
      t.plan.chain base (.lane key) t.size).zipIdx.forM
        (rankChain (t.plan.stateId base .start) t.size)) (base + 1 + t.width * t.size) 0
      ((List.range t.width).flatMap fun key => (t.rankWires key).map (t.plan.edit base)) () := by
    apply yields_forM_zipIdx
    intro key hk
    exact yields_rankChain hc small ranks hs hk
  have wilds : Yields (allocChain t.size) (base + 1 + t.width * t.size) t.size []
      (t.plan.chain base .wilds t.size) :=
    Plan.yields_allocChain fun i _ => by
      rw [index_wilds_of_closed hc]
      omega
  have rows : Yields ((List.range (t.size - 1)).forM (wildRow (t.plan.chain base .wilds t.size)
      ((List.range t.width).map fun key => t.plan.chain base (.lane key) t.size)))
      (base + 1 + t.width * t.size + t.size) 0
      ((List.range (t.size - 1)).flatMap fun pos =>
        (t.wildWires (pos, pos + 1)).map (t.plan.edit base)) () := by
    apply yields_forM_range
    intro pos hp
    exact yields_wildRow hc small ranks (by omega)
  have ends : Yields (((List.range t.width).map fun key =>
      t.plan.chain base (.lane key) t.size).mapM fun chain => nth chain (t.size - 1))
      (base + 1 + t.width * t.size + t.size) 0 []
      ((List.range t.width).map fun key => t.plan.stateId base (.lane key (t.size - 1))) := by
    apply yields_mapM_read
    exact fun key _ => yields_nth (Plan.chain_getElem last)
  rw [Arena.run, width]
  refine ((yields_guard hl).read (yields_alloc.bind (chains.bind (lanes.seq (wilds.bind
    ((Plan.yields_lead hs start now_small wild).seq (rows.seq
      (ends.read (t.yields_fragment base _ hs))))))))).congr ?_ ?_ rfl
  · rw [size_plan]
    omega
  · rw [closedWires, List.map_append, List.map_cons, map_flatMap_steps_of_closed hc hs,
      List.map_flatMap]
    simp only [List.nil_append, List.append_nil, List.cons_append]

end Track
end Meld.Blueprint
