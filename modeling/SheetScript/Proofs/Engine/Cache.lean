import Mathlib.Data.List.Perm.Basic
import Mathlib.Data.Option.Basic
import SheetScript.Proofs.Engine.Recency

/-!
# The cache holds what was asked for last

The cache keeps when each script was last used, and drops the oldest to make room. It cannot be told
from a list of the scripts by their last use.

* `Cache.Fits` says that the scripts are in order and that there is room for them.
* `Cache.Mirrors` says that a cache holds what a list says, and that the times of its last uses tell
  the order of the list. What the cache does keeps it: `Mirrors.makeRoom`, `Mirrors.hold`,
  `Mirrors.invalidate` and, from these, `Mirrors.fetch`.
* `Cache.mirrors_ofCalls` is about any sequence of calls.
* `Cache.refines_recency` is what follows for the answers, the scripts held and the counters.
-/

namespace SheetScript

/-! ## The cache -/

/-- What is held of a script is the program of a source. -/
structure CachedProgram.IsOf (p : CachedProgram) (source : String) : Prop where
  digest : p.digest = sha256 source
  program : Program.ofSource? source = .ok p.program

namespace Cache

variable {c : Cache} {l : Recency} {id source : String}

/-- The cache after a call. -/
def perform (c : Cache) : Call → Cache
  | .fetch id source => (c.fetch id source).2
  | .invalidate id => c.invalidate id
  | .clear => c.clear

/-- The cache after some calls. -/
def ofCalls (capacity : Nat) (calls : List Call) : Cache :=
  calls.foldl perform { capacity := capacity }

theorem ofCalls_concat (capacity : Nat) (calls : List Call) (call : Call) :
    ofCalls capacity (calls ++ [call]) = (ofCalls capacity calls).perform call := by
  simp [ofCalls]

/-- To make room changes nothing but what is held. -/
theorem frame_makeRoom (c : Cache) :
    c.makeRoom.clock = c.clock ∧ c.makeRoom.capacity = c.capacity ∧
      c.makeRoom.hits = c.hits ∧ c.makeRoom.misses = c.misses := by
  unfold makeRoom
  split_ifs
  · exact ⟨rfl, rfl, rfl, rfl⟩
  · exact ⟨rfl, rfl, rfl, rfl⟩

/-! ## What fits -/

/-- The scripts are in order, each once, and there is room for them. -/
structure Fits (c : Cache) : Prop where
  sorted : Entries.Sorted c.programs
  size_le : 0 < c.capacity → c.size ≤ c.capacity

theorem sorted_makeRoom (sorted : Entries.Sorted c.programs) :
    Entries.Sorted c.makeRoom.programs := by
  unfold makeRoom
  split_ifs
  · exact sorted
  · exact sorted.sublist (List.filter_sublist.map _)

theorem size_makeRoom_lt (c : Cache) (positive : 0 < c.capacity) :
    c.makeRoom.size < c.capacity := by
  unfold makeRoom
  split_ifs with room
  · simp only [Bool.or_eq_true, beq_iff_eq, decide_eq_true_eq] at room
    omega
  · simp only [Bool.or_eq_true, beq_iff_eq, decide_eq_true_eq, not_or, not_lt] at room
    have perm : c.byAge.Perm c.programs := List.mergeSort_perm ..
    have all : c.byAge.length = c.size := perm.length_eq
    have kept : ∀ count, (c.programs.filter fun entry =>
        !((c.byAge.take count).map Prod.fst).contains entry.1).length ≤ c.size - count := by
      intro count
      rw [← (perm.filter _).length_eq, ← all, ← List.length_drop]
      -- of those that are dropped none is kept
      have none_kept : (c.byAge.take count).filter (fun entry =>
          !((c.byAge.take count).map Prod.fst).contains entry.1) = [] := by
        rw [List.filter_eq_nil_iff]
        intro entry mem
        simpa using List.mem_map_of_mem (f := Prod.fst) mem
      nth_rewrite 2 [← List.take_append_drop count c.byAge]
      rw [List.filter_append, none_kept, List.nil_append]
      exact List.length_filter_le ..
    refine (kept (c.size + 1 - c.capacity)).trans_lt ?_
    omega

theorem size_le_of_subset (sorted : Entries.Sorted c.programs) (keys : List String)
    (sub : Entries.keys c.programs ⊆ keys) : c.size ≤ keys.length := by
  have le := (List.subperm_of_subset sorted.nodup sub).length_le
  rwa [Entries.keys, List.length_map] at le

theorem size_hold_le (sorted : Entries.Sorted c.programs) (id : String) (p : CachedProgram) :
    (c.hold id p).size ≤ c.size + 1 := by
  have le := size_le_of_subset (c := c.hold id p) (sorted.insert id p)
    (id :: Entries.keys c.programs) fun key mem => List.mem_cons.2 (Entries.mem_keys_insert.1 mem)
  rwa [List.length_cons, Entries.keys, List.length_map] at le

/-- To hold a script that is held takes no room. -/
theorem size_hold_le_of_contains (sorted : Entries.Sorted c.programs) (known : c.contains id)
    (p : CachedProgram) : (c.hold id p).size ≤ c.size := by
  have sub : Entries.keys (c.hold id p).programs ⊆ Entries.keys c.programs := by
    intro key mem
    rcases Entries.mem_keys_insert.1 mem with rfl | mem
    · exact Entries.mem_keys_iff_isSome.2 known
    · exact mem
  have le := size_le_of_subset (c := c.hold id p) (sorted.insert id p) _ sub
  rwa [Entries.keys, List.length_map] at le

namespace Fits

theorem invalidate (h : c.Fits) (id : String) : (c.invalidate id).Fits where
  sorted := h.sorted.erase id
  size_le := fun positive => (List.length_filter_le ..).trans (h.size_le positive)

theorem read (h : c.Fits) {known : Bool} (same : c.contains id = known) (source : String)
    (digest : Digest) : (c.read id source digest known).2.Fits := by
  have ticked : Fits { c with clock := c.clock + 1, misses := c.misses + 1 } :=
    ⟨h.sorted, h.size_le⟩
  unfold Cache.read
  cases Program.ofSource? source with
  | error e =>
    cases known with
    | true => exact ticked.invalidate id
    | false => exact ticked
  | ok program =>
    cases known with
    | true =>
      exact ⟨h.sorted.insert id _, fun positive =>
        (size_hold_le_of_contains ticked.sorted same _).trans (h.size_le positive)⟩
    | false =>
      refine ⟨(sorted_makeRoom ticked.sorted).insert id _, fun positive => ?_⟩
      change 0 < Cache.capacity (makeRoom _) at positive
      change Cache.size _ ≤ Cache.capacity (makeRoom _)
      rw [(frame_makeRoom _).2.1] at positive ⊢
      exact (size_hold_le (sorted_makeRoom ticked.sorted) id _).trans (size_makeRoom_lt _ positive)

theorem fetch (h : c.Fits) (id source : String) : (c.fetch id source).2.Fits := by
  unfold Cache.fetch
  cases found : Entries.find? c.programs id with
  | none => exact h.read (by rw [contains, Entries.contains, found]; rfl) source _
  | some p =>
    have known : c.contains id = true := by rw [contains, Entries.contains, found]; rfl
    dsimp only
    split_ifs
    · exact ⟨h.sorted.insert id _, fun positive =>
        (size_hold_le_of_contains h.sorted known _).trans (h.size_le positive)⟩
    · exact h.read known source _

end Fits

/-! ## A cache and its list -/

/-- When a script was last asked for. -/
def usedAt (c : Cache) (id : String) : Nat := ((Entries.find? c.programs id).map (·.used)).getD 0

/-- A cache holds what a list says. -/
structure Mirrors (c : Cache) (l : Recency) : Prop where
  sorted : Entries.Sorted c.programs
  /-- The same scripts are held, each as the program of its source. -/
  held : ∀ id, Option.Rel CachedProgram.IsOf (Entries.find? c.programs id) (Entries.find? l id)
  /-- The scripts in front were used after those behind. -/
  recent : (Entries.keys l).Pairwise fun a b => c.usedAt b < c.usedAt a
  /-- All of them were used before now. -/
  past : ∀ id p, Entries.find? c.programs id = some p → p.used < c.clock

theorem usedAt_of_find? {p : CachedProgram} (h : Entries.find? c.programs id = some p) :
    c.usedAt id = p.used := by
  rw [usedAt, h]
  rfl

theorem isSome_eq_of_rel {α β : Type} {R : α → β → Prop} {a : Option α} {b : Option β}
    (h : Option.Rel R a b) : a.isSome = b.isSome := by
  cases h <;> rfl

theorem eq_none_of_rel {α β : Type} {R : α → β → Prop} {b : Option β}
    (h : Option.Rel R none b) : b = none := by
  cases h
  rfl

theorem exists_of_rel {α β : Type} {R : α → β → Prop} {a : α} {b : Option β}
    (h : Option.Rel R (some a) b) : ∃ x, b = some x ∧ R a x := by
  cases h with
  | some rel => exact ⟨_, rfl, rel⟩

/-- What a look-up answers. -/
def answer (outcome : Except ScriptError (CachedProgram × FetchOutcome)) :
    Except ScriptError (Program × FetchOutcome) := outcome.map fun got => (got.1.program, got.2)

namespace Mirrors

theorem nodup (h : c.Mirrors l) : (Entries.keys l).Nodup :=
  h.recent.imp fun lt eq => by simp [eq] at lt

theorem mem_keys (h : c.Mirrors l) {id : String} :
    id ∈ Entries.keys c.programs ↔ id ∈ Entries.keys l := by
  rw [Entries.mem_keys_iff_isSome, Entries.mem_keys_iff_isSome, isSome_eq_of_rel (h.held id)]

theorem keys_perm (h : c.Mirrors l) : (Entries.keys c.programs).Perm (Entries.keys l) :=
  (List.perm_ext_iff_of_nodup h.sorted.nodup h.nodup).2 fun _ => h.mem_keys

theorem size_eq (h : c.Mirrors l) : c.size = l.length := by
  have same := h.keys_perm.length_eq
  simpa [Entries.keys, size] using same

/-- Only the order of use matters, so that time may pass. -/
theorem of_programs {c' : Cache} (h : c.Mirrors l) (same : c'.programs = c.programs)
    (later : c.clock ≤ c'.clock) : c'.Mirrors l where
  sorted := same ▸ h.sorted
  held := same ▸ h.held
  recent := by
    have uses : ∀ id, c'.usedAt id = c.usedAt id := fun id => by rw [usedAt, usedAt, same]
    simpa only [uses] using h.recent
  past := by
    intro id p found
    rw [same] at found
    exact (h.past id p found).trans_le later

/-! ## Room -/

/-- **By age, the scripts come in the order of the list, from the back.** -/
theorem map_byAge (h : c.Mirrors l) : c.byAge.map Prod.fst = (Entries.keys l).reverse := by
  have perm : (c.byAge.map Prod.fst).Perm (Entries.keys l) :=
    ((List.mergeSort_perm ..).map _).trans h.keys_perm
  have aged : (c.byAge.map Prod.fst).Pairwise fun a b => c.usedAt a ≤ c.usedAt b := by
    have sorted : c.byAge.Pairwise fun a b => decide (a.2.used ≤ b.2.used) = true :=
      List.pairwise_mergeSort (by simp only [decide_eq_true_eq]; omega)
        (by simp only [Bool.or_eq_true, decide_eq_true_eq]; omega) c.programs
    have uses : ∀ entry ∈ c.byAge, c.usedAt entry.1 = entry.2.used := fun entry mem =>
      usedAt_of_find? (Entries.find?_of_mem h.sorted.nodup ((List.mergeSort_perm ..).mem_iff.1 mem))
    rw [List.pairwise_map]
    refine sorted.imp_of_mem fun ha hb le => ?_
    rw [uses _ ha, uses _ hb]
    simpa using le
  have reversed : (Entries.keys l).reverse.Pairwise fun a b => c.usedAt a ≤ c.usedAt b :=
    List.pairwise_reverse.2 (h.recent.imp Nat.le_of_lt)
  refine List.Perm.eq_of_pairwise ?_ aged reversed (perm.trans (List.reverse_perm _).symm)
  -- no two scripts were used at the same time
  have distinct : ((Entries.keys l).map c.usedAt).Nodup :=
    List.pairwise_map.2 (h.recent.imp fun lt => lt.ne')
  intro a b ha hb le le'
  exact List.inj_on_of_nodup_map distinct (perm.mem_iff.1 ha) (List.mem_reverse.1 hb)
    (Nat.le_antisymm le le')

/-- What is dropped to make room is what is at the back of the list. -/
theorem dropped_eq (h : c.Mirrors l) (positive : 0 < c.capacity) (full : c.capacity ≤ c.size) :
    (c.byAge.take (c.size + 1 - c.capacity)).map Prod.fst =
      (Entries.keys (l.drop (c.capacity - 1))).reverse := by
  rw [List.map_take, h.map_byAge, List.take_reverse, Entries.keys, Entries.keys, List.map_drop,
    List.length_map, ← h.size_eq]
  congr 2
  omega

theorem find?_makeRoom (h : c.Mirrors l) (id : String) :
    Entries.find? c.makeRoom.programs id =
      if c.capacity ≠ 0 ∧ id ∈ Entries.keys (l.drop (c.capacity - 1)) then none
      else Entries.find? c.programs id := by
  unfold makeRoom
  split_ifs with room back back
  · -- there is room, so that nothing is at the back
    have enough : l.length ≤ c.capacity - 1 := by
      rw [← h.size_eq]
      simp only [Bool.or_eq_true, beq_iff_eq, decide_eq_true_eq] at room
      omega
    rw [List.drop_eq_nil_of_le enough] at back
    exact absurd back.2 List.not_mem_nil
  · rfl
  all_goals
    simp only [Bool.or_eq_true, beq_iff_eq, decide_eq_true_eq, not_or, not_lt] at room
    dsimp only
    rw [h.dropped_eq (by omega) room.2,
      Entries.find?_filter c.programs fun key => !List.contains _ key]
    simp_all

/-- What is there when room has been made was there before. -/
theorem find?_of_makeRoom (h : c.Mirrors l) {p : CachedProgram}
    (found : Entries.find? c.makeRoom.programs id = some p) :
    Entries.find? c.programs id = some p := by
  rw [h.find?_makeRoom] at found
  split_ifs at found
  exact found

/-- **A cache that makes room** mirrors the list that makes room. -/
theorem makeRoom (h : c.Mirrors l) : c.makeRoom.Mirrors (l.makeRoom c.capacity) := by
  have front : ∀ id, Entries.find? (l.makeRoom c.capacity) id =
      if c.capacity ≠ 0 ∧ id ∈ Entries.keys (l.drop (c.capacity - 1)) then none
      else Entries.find? l id := by
    intro id
    unfold Recency.makeRoom
    by_cases unbounded : c.capacity = 0
    · simp [unbounded]
    · simp [unbounded, Entries.find?_take h.nodup]
  have held : ∀ id, Option.Rel CachedProgram.IsOf (Entries.find? c.makeRoom.programs id)
      (Entries.find? (l.makeRoom c.capacity) id) := by
    intro id
    rw [h.find?_makeRoom, front]
    split_ifs
    · exact .none
    · exact h.held id
  have sublist : (Entries.keys (l.makeRoom c.capacity)).Sublist (Entries.keys l) :=
    (Recency.makeRoom_sublist ..).map _
  have uses : ∀ id ∈ Entries.keys (l.makeRoom c.capacity), c.makeRoom.usedAt id = c.usedAt id := by
    intro id mem
    rw [Entries.mem_keys_iff_isSome, ← isSome_eq_of_rel (held id)] at mem
    obtain ⟨p, found⟩ := Option.isSome_iff_exists.1 mem
    rw [usedAt_of_find? found, usedAt_of_find? (h.find?_of_makeRoom found)]
  refine ⟨?_, held, ?_, ?_⟩
  · exact sorted_makeRoom h.sorted
  · refine (h.recent.sublist sublist).imp_of_mem fun ha hb lt => ?_
    rwa [uses _ ha, uses _ hb]
  · intro id p found
    rw [c.frame_makeRoom.1]
    exact h.past id p (h.find?_of_makeRoom found)

/-! ## Calls -/

theorem invalidate (h : c.Mirrors l) (id : String) :
    (c.invalidate id).Mirrors (Entries.erase l id) := by
  have find? : ∀ other, Entries.find? (c.invalidate id).programs other =
      if other = id then none else Entries.find? c.programs other :=
    fun other => Entries.find?_erase c.programs id other
  refine ⟨h.sorted.erase id, fun other => ?_, ?_, fun other p found => ?_⟩
  · rw [find?, Entries.find?_erase]
    split_ifs
    · exact .none
    · exact h.held other
  · rw [Entries.keys_erase]
    refine (h.recent.filter _).imp_of_mem fun ha hb lt => ?_
    have uses : ∀ other ∈ (Entries.keys l).filter (· != id),
        (c.invalidate id).usedAt other = c.usedAt other := by
      intro other mem
      rw [usedAt, usedAt, find?, if_neg (by simpa using (List.mem_filter.1 mem).2)]
    rwa [uses _ ha, uses _ hb]
  · rw [find?] at found
    split_ifs at found
    exact h.past other p found

theorem of_empty (h : c.programs = []) : c.Mirrors [] where
  sorted := h ▸ .nil
  held := fun _ => h ▸ .none
  recent := .nil
  past := fun id p found => by simp [h, Entries.find?] at found

/-- To hold a program that was used after all others puts its script in front. -/
theorem hold (h : c.Mirrors l) {p : CachedProgram} (isOf : p.IsOf source)
    (last : ∀ id q, Entries.find? c.programs id = some q → q.used < p.used)
    (past : p.used < c.clock) (id : String) :
    (c.hold id p).Mirrors ((id, source) :: Entries.erase l id) := by
  have find? : ∀ other, Entries.find? (c.hold id p).programs other =
      if other = id then some p else Entries.find? c.programs other :=
    fun other => Entries.find?_insert c.programs id p other
  have front : ∀ other, Entries.find? ((id, source) :: Entries.erase l id) other =
      if other = id then some source else Entries.find? l other := by
    intro other
    rw [Entries.find?, Entries.find?_erase]
    by_cases same : other = id
    · simp [same]
    · simp [same, Ne.symm same]
  have uses : ∀ other,
      (c.hold id p).usedAt other = if other = id then p.used else c.usedAt other := by
    intro other
    rw [usedAt, usedAt, find?]
    split_ifs <;> rfl
  refine ⟨h.sorted.insert id p, fun other => ?_, ?_, fun other q found => ?_⟩
  · rw [find?, front]
    split_ifs
    · exact .some isOf
    · exact h.held other
  · rw [Entries.keys, List.map_cons, List.pairwise_cons]
    change (∀ other ∈ Entries.keys (Entries.erase l id), _) ∧
      (Entries.keys (Entries.erase l id)).Pairwise _
    rw [Entries.keys_erase]
    constructor
    · intro other mem
      obtain ⟨mem, apart⟩ := List.mem_filter.1 mem
      have known := Entries.mem_keys_iff_isSome.1 (h.mem_keys.2 mem)
      obtain ⟨q, found⟩ := Option.isSome_iff_exists.1 known
      rw [uses, uses, if_neg (by simpa using apart), if_pos rfl, usedAt_of_find? found]
      exact last other q found
    · refine (h.recent.filter _).imp_of_mem fun ha hb lt => ?_
      have apart : ∀ other ∈ (Entries.keys l).filter (· != id), other ≠ id :=
        fun other mem => by simpa using (List.mem_filter.1 mem).2
      rwa [uses, uses, if_neg (apart _ ha), if_neg (apart _ hb)]
  · rw [find?] at found
    split_ifs at found
    · obtain rfl := Option.some.inj found
      exact past
    · exact h.past other q found

/-- A look-up reads the source when it is not held; `known` says whether another one is. -/
theorem read (h : c.Mirrors l) {known : Bool} (same : Entries.contains l id = known) :
    (c.read id source (sha256 source) known).2.Mirrors (l.fetch c.capacity id source) ∧
      answer (c.read id source (sha256 source) known).1 =
        (Program.ofSource? source).map fun p => (p, if known then .replaced else .miss) := by
  have ticked : Mirrors { c with clock := c.clock + 1, misses := c.misses + 1 } l :=
    h.of_programs rfl (Nat.le_succ _)
  have absent : known = false → id ∉ Entries.keys l := by
    rintro rfl
    apply Entries.find?_eq_none_iff.1
    simpa [Entries.contains] using same
  unfold Cache.read Recency.fetch
  rw [same]
  cases parsed : Program.ofSource? source with
  | error e =>
    refine ⟨?_, rfl⟩
    cases known with
    | true => exact ticked.invalidate id
    | false =>
      rw [Entries.erase_of_not_mem (absent rfl)]
      exact ticked
  | ok program =>
    have isOf : CachedProgram.IsOf ⟨sha256 source, program, c.clock, c.clock⟩ source :=
      ⟨rfl, parsed⟩
    refine ⟨?_, rfl⟩
    cases known with
    | true => exact ticked.hold isOf h.past (Nat.lt_succ_self _) id
    | false =>
      have room := ticked.makeRoom
      have gone : id ∉ Entries.keys (l.makeRoom c.capacity) := by
        exact fun mem => absent rfl (((Recency.makeRoom_sublist ..).map _).subset mem)
      have front := room.hold isOf (fun id q found => h.past id q (ticked.find?_of_makeRoom found))
        (by rw [(frame_makeRoom _).1]; exact Nat.lt_succ_self _) id
      rwa [Entries.erase_of_not_mem gone] at front

/-- **A look-up** answers with the program of the source, and says how it came by it. -/
theorem fetch (h : c.Mirrors l)
    (unmixed : ∀ held, Entries.find? l id = some held →
      sha256 held = sha256 source → held = source) :
    (c.fetch id source).2.Mirrors (l.fetch c.capacity id source) ∧
      answer (c.fetch id source).1 =
        (Program.ofSource? source).map fun p => (p, l.outcome id source) := by
  have rel := h.held id
  unfold Cache.fetch Recency.outcome
  dsimp only
  cases found : Entries.find? c.programs id with
  | none =>
    rw [found] at rel
    have absent := eq_none_of_rel rel
    rw [absent]
    exact h.read (by rw [Entries.contains, absent]; rfl)
  | some p =>
    rw [found] at rel
    obtain ⟨before, held, isOf⟩ := exists_of_rel rel
    have known : Entries.contains l id = true := by rw [Entries.contains, held]; rfl
    rw [held]
    dsimp only
    by_cases same : before = source
    · subst same
      rw [if_pos (by simp [isOf.digest]), Recency.fetch, isOf.program, known]
      have ticked : Mirrors { c with clock := c.clock + 1, hits := c.hits + 1 } l :=
        h.of_programs rfl (Nat.le_succ _)
      have front := ticked.hold (p := { p with used := c.clock }) ⟨isOf.digest, isOf.program⟩
        h.past (Nat.lt_succ_self _) id
      exact ⟨front, by simp [answer, Except.map]⟩
    · have apart : ¬(p.digest == sha256 source) := by
        rw [isOf.digest, beq_iff_eq]
        exact fun digest => same (unmixed before held digest)
      rw [if_neg apart, if_neg same]
      exact h.read known

end Mirrors

/-! ## Any calls -/

theorem frame_read (c : Cache) (id source : String) (digest : Digest) (known : Bool) :
    (c.read id source digest known).2.capacity = c.capacity ∧
      (c.read id source digest known).2.hits + (c.read id source digest known).2.misses =
        c.hits + c.misses + 1 := by
  unfold read
  cases Program.ofSource? source <;> cases known <;>
    simp [invalidate, hold, frame_makeRoom, Nat.add_assoc]

/-- **Every look-up is counted**, as a hit or a miss. -/
theorem frame_fetch (c : Cache) (id source : String) :
    (c.fetch id source).2.capacity = c.capacity ∧
      (c.fetch id source).2.hits + (c.fetch id source).2.misses = c.hits + c.misses + 1 := by
  unfold fetch
  dsimp only
  split
  next => exact c.frame_read ..
  next =>
    split_ifs
    · exact ⟨rfl, Nat.add_right_comm ..⟩
    · exact c.frame_read ..

theorem capacity_perform (c : Cache) (call : Call) : (c.perform call).capacity = c.capacity := by
  cases call with
  | fetch id source => exact (c.frame_fetch id source).1
  | invalidate id => rfl
  | clear => rfl

theorem capacity_ofCalls (capacity : Nat) (calls : List Call) :
    (ofCalls capacity calls).capacity = capacity := by
  induction calls using List.reverseRecOn with
  | nil => rfl
  | append_singleton calls call ih => rw [ofCalls_concat, capacity_perform, ih]

/-- No two of the sources have the same digest. -/
def Unmixed (sources : List String) : Prop :=
  ∀ s ∈ sources, ∀ t ∈ sources, sha256 s = sha256 t → s = t

instance (sources : List String) : Decidable (Unmixed sources) :=
  inferInstanceAs (Decidable (∀ s ∈ sources, ∀ t ∈ sources, sha256 s = sha256 t → s = t))

theorem Unmixed.of_subset {few many : List String} (h : Unmixed many) (sub : few ⊆ many) :
    Unmixed few := fun s hs t ht => h s (sub hs) t (sub ht)

/-- What is held of a script has another digest than the source asked for, unless it is it. -/
theorem held_eq_of_unmixed {capacity : Nat} {calls : List Call}
    (unmixed : Unmixed (sources calls ++ [source])) (id : String) (held : String)
    (found : Entries.find? (Recency.ofCalls capacity calls) id = some held)
    (same : sha256 held = sha256 source) : held = source := by
  have asked := Recency.mem_sources_of_mem_ofCalls calls (Entries.mem_of_find? found)
  apply unmixed
  · exact List.mem_append_left _ asked
  · exact List.mem_append_right _ (List.mem_singleton_self source)
  · exact same

/-- **After any calls, the cache holds what the list says.** -/
theorem mirrors_ofCalls (capacity : Nat) (calls : List Call) (unmixed : Unmixed (sources calls)) :
    (ofCalls capacity calls).Mirrors (Recency.ofCalls capacity calls) := by
  induction calls using List.reverseRecOn with
  | nil => exact Mirrors.of_empty rfl
  | append_singleton calls call ih =>
    rw [sources_concat] at unmixed
    have h := ih (unmixed.of_subset (List.subset_append_left ..))
    rw [ofCalls_concat, Recency.ofCalls_concat]
    cases call with
    | invalidate id => exact h.invalidate id
    | clear => exact Mirrors.of_empty rfl
    | fetch id source =>
      have after := (h.fetch (held_eq_of_unmixed unmixed id)).1
      rwa [capacity_ofCalls] at after

theorem fits_ofCalls (capacity : Nat) (calls : List Call) : (ofCalls capacity calls).Fits := by
  induction calls using List.reverseRecOn with
  | nil => exact ⟨.nil, fun _ => Nat.zero_le _⟩
  | append_singleton calls call ih =>
    rw [ofCalls_concat]
    cases call with
    | fetch id source => exact ih.fetch id source
    | invalidate id => exact ih.invalidate id
    | clear => exact ⟨.nil, fun _ => Nat.zero_le _⟩

/-- The look-ups among some calls. -/
def lookups (calls : List Call) : Nat := (sources calls).length

theorem count_ofCalls (capacity : Nat) (calls : List Call) :
    (ofCalls capacity calls).hits + (ofCalls capacity calls).misses = lookups calls := by
  induction calls using List.reverseRecOn with
  | nil => rfl
  | append_singleton calls call ih =>
    rw [ofCalls_concat, lookups, sources_concat, List.length_append, ← lookups, ← ih]
    cases call with
    | fetch id source => exact (frame_fetch _ id source).2
    | invalidate id => rfl
    | clear => rfl

/-- **The cache is a list of the scripts, those asked for last in front.** For any capacity and any
calls whose sources have different digests, each look-up answers with what its source reads as, and
tells whether the script was held with this source, with another or not at all; and the scripts held
are those of the list. Never are more held than there is room for, and every look-up is counted. -/
theorem refines_recency (capacity : Nat) (calls : List Call) :
    (Unmixed (sources calls) →
      (∀ before id source after, calls = before ++ .fetch id source :: after →
        answer ((ofCalls capacity before).fetch id source).1 =
          (Program.ofSource? source).map fun p =>
            (p, (Recency.ofCalls capacity before).outcome id source)) ∧
      (Entries.keys (ofCalls capacity calls).programs).Perm
        (Entries.keys (Recency.ofCalls capacity calls))) ∧
    (0 < capacity → (ofCalls capacity calls).size ≤ capacity) ∧
    (ofCalls capacity calls).hits + (ofCalls capacity calls).misses = lookups calls := by
  have fits := fits_ofCalls capacity calls
  refine ⟨fun unmixed => ⟨?_, (mirrors_ofCalls capacity calls unmixed).keys_perm⟩,
    fun positive => ?_, count_ofCalls capacity calls⟩
  · intro before id source after eq
    have asked : Unmixed (sources before ++ [source]) := by
      apply unmixed.of_subset
      rw [eq, sources_append]
      apply List.append_subset.2
      refine ⟨List.subset_append_left .., List.subset_append_of_subset_right _ ?_⟩
      simp [sources, Call.source?]
    have h := mirrors_ofCalls capacity before (asked.of_subset (List.subset_append_left ..))
    exact (h.fetch (held_eq_of_unmixed asked id)).2
  · have le := fits.size_le
    rw [capacity_ofCalls] at le
    exact le positive

/-- Calls by which a script is found, makes room for another, is replaced and fails to be read. -/
def crowding : List Call :=
  [.fetch "a" "1", .fetch "b" "2", .fetch "a" "1", .fetch "c" "3", .fetch "a" "4", .fetch "c" "(",
    .fetch "b" "2"]

theorem refines_recency_crowding :
    Unmixed (sources crowding) ∧
    answer ((ofCalls 2 (crowding.take 4)).fetch "a" "4").1 =
      (Program.ofSource? "4").map (fun p => (p, .replaced)) ∧
    (Entries.keys (ofCalls 2 crowding).programs).Perm ["b", "a"] ∧
    (ofCalls 2 crowding).size ≤ 2 ∧
    (ofCalls 2 crowding).hits + (ofCalls 2 crowding).misses = 7 := by
  have unmixed : Unmixed (sources crowding) := by decide +kernel
  obtain ⟨refines, size, count⟩ := refines_recency 2 crowding
  obtain ⟨answers, keys⟩ := refines unmixed
  refine ⟨unmixed, ?_, ?_, size (by decide), count⟩
  · have replaced : (Recency.ofCalls 2 (crowding.take 4)).outcome "a" "4" = .replaced := by
      decide
    rw [answers (crowding.take 4) "a" "4" (crowding.drop 5) rfl, replaced]
  · have order : Entries.keys (Recency.ofCalls 2 crowding) = ["b", "a"] := by decide
    rwa [order] at keys

end Cache

end SheetScript
