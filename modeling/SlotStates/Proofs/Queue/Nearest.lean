/-
SlotStates/Proofs/Queue/Nearest.lean

A round starts from the nearest cached ancestor.

The ancestors of many tasks are the keys of the words below a word, the
greatest word first (`Descends`): those of a state task are the keys of its
block at the slots below its own.  For such tasks the search for a base, which
looks up one ancestor after the other and gives up at a limit, comes to what
can be said without a search: the base is the value under the greatest word
within reach for which there is one, and there is none if nothing within reach
is cached (`walk_base_eq_some_iff`, `walk_base_eq_none_iff`).

The number of an ancestor and its word determine each other, so that being
within the limit and being within reach are the same (`reaches_iff`).  Without
a limit everything below is within reach, since no word has more words below it
than the greatest one.

The main result is `rounds_start_from_the_nearest`.
-/
import SlotStates.Proofs.Queue.Touches
import SlotStates.Scenario.Script
import SlotStates.State.Task

namespace SlotStates

variable {κ τ ν ε : Type}

/-! ### Words within reach -/

/-- The ancestors of a task are the keys of the words below a word, the
greatest first. -/
def Descends [Task τ κ ν] (task : τ) (top : UInt64) (keyAt : UInt64 → κ) : Prop :=
  ∀ i, Task.ancestor? task i = (Word.below? top i).map keyAt

theorem descends_stateTask {σ : Type} (task : StateTask σ) :
    Descends task task.key.slot fun slot => ⟨slot, task.key.root⟩ :=
  fun _ => rfl

theorem descends_job {job : Script.Job} (h : job.ancestors = none) : Descends job job.key id := by
  intro i
  simp only [Task.ancestor?, h, Option.map_id_fun, id]

/-- A word is below another one and not farther from it than a task looks
back. -/
structure Limits.Reaches (l : Limits) (top x : UInt64) : Prop where
  below : x < top
  near : ∀ w, l.walk = some w → top.toNat - x.toNat ≤ w.val

/-- The words within reach are those that come up within the limit. -/
theorem Limits.reaches_iff {l : Limits} {top x : UInt64} :
    l.Reaches top x ↔ ∃ n < l.maxSteps, Word.below? top n = some x := by
  have htop := Word.toNat_le_greatest top
  constructor
  · rintro ⟨hlt, hnear⟩
    have hlt : x.toNat < top.toNat := UInt64.lt_iff_toNat_lt.mp hlt
    refine ⟨top.toNat - 1 - x.toNat, ?_, Word.below?_eq_some_iff.mpr (by omega)⟩
    rw [maxSteps]
    split
    · -- the greatest word has not as many words below it as would be needed
      omega
    · next w hw =>
      have := hnear w hw
      omega
  · rintro ⟨n, hn, hx⟩
    have hx' := Word.below?_eq_some_iff.mp hx
    refine ⟨Word.below?_lt hx, fun w hw => ?_⟩
    rw [maxSteps, hw] at hn
    have hn : n < w.val := hn
    omega

/-! ### The search for a base -/

variable [DecidableEq κ]

namespace Cache

/-- A search that has come to the end of the ancestors goes no further,
whatever its limit. -/
theorem walkFrom_of_exhausted (c : Cache κ ν) {ancestor? : Nat → Option κ} {i limit limit' : Nat}
    (h : ∀ j, i + limit ≤ j → ancestor? j = none) (hle : limit ≤ limit') :
    c.walkFrom ancestor? i limit' = c.walkFrom ancestor? i limit := by
  induction limit generalizing i limit' with
  | zero =>
    rcases limit' with - | n
    · rfl
    · simp [walkFrom, h i (Nat.le_refl i)]
  | succ limit ih =>
    obtain ⟨n, rfl⟩ := Nat.exists_eq_add_of_le' hle
    show c.walkFrom ancestor? i (n + limit + 1) = _
    have ih : c.walkFrom ancestor? (i + 1) (n + limit) = c.walkFrom ancestor? (i + 1) limit :=
      ih (fun j hj => h j (by omega)) (by omega)
    rw [walkFrom, walkFrom, ih]

/-- In an empty cache the search would find nothing either. -/
theorem walkFrom_empty_base (ancestor? : Nat → Option κ) (i limit : Nat) :
    ((empty : Cache κ ν).walkFrom ancestor? i limit).base = none := by
  induction limit generalizing i with
  | zero => rfl
  | succ limit ih =>
    rw [walkFrom]
    split
    · rfl
    · exact ih (i + 1)

/-- Not to search in an empty cache leaves out no base. -/
theorem walk_base_eq (c : Cache κ ν) (ancestor? : Nat → Option κ) (limit : Nat) :
    (c.walk ancestor? limit).base = (c.walkFrom ancestor? 0 limit).base := by
  obtain ⟨es⟩ := c
  rw [walk]
  split
  · next he =>
    obtain rfl : es = [] := List.isEmpty_iff.mp he
    exact (walkFrom_empty_base ancestor? 0 limit).symm
  · rfl

end Cache

namespace Queue

/-- A value is cached under the key of a word within reach, and nothing is
cached under that of a greater one. -/
structure Nearest (q : Queue κ τ ν ε) (top : UInt64) (keyAt : UInt64 → κ) (x : UInt64) (v : ν) :
    Prop where
  reached : q.limits.Reaches top x
  cached : q.cache.find? (keyAt x) = some v
  first : ∀ y, x < y → y < top → q.cache.find? (keyAt y) = none

theorem Nearest.unique {q : Queue κ τ ν ε} {top : UInt64} {keyAt : UInt64 → κ} {x y : UInt64}
    {v w : ν} (h : q.Nearest top keyAt x v) (h' : q.Nearest top keyAt y w) : x = y ∧ v = w := by
  have hxy : x = y := by
    rcases Nat.lt_trichotomy x.toNat y.toNat with hlt | heq | hgt
    · cases (h.first y (UInt64.lt_iff_toNat_lt.mpr hlt) h'.reached.below).symm.trans h'.cached
    · exact UInt64.toNat_inj.mp heq
    · cases (h'.first x (UInt64.lt_iff_toNat_lt.mpr hgt) h.reached.below).symm.trans h.cached
  subst hxy
  exact ⟨rfl, Option.some.inj (h.cached.symm.trans h'.cached)⟩

variable [Task τ κ ν] {q : Queue κ τ ν ε} {task : τ} {top : UInt64} {keyAt : UInt64 → κ}

/-- Nothing is found exactly if nothing within reach is cached. -/
theorem walk_base_eq_none_iff (h : Descends task top keyAt) :
    (q.cache.walk (Task.ancestor? task) q.limits.maxSteps).base = none
      ↔ ∀ x, q.limits.Reaches top x → q.cache.find? (keyAt x) = none := by
  constructor
  · intro hb x hx
    obtain ⟨n, hn, hx⟩ := Limits.reaches_iff.mp hx
    refine Cache.walk_base_eq_none hb n hn (fun m hm hnone => ?_) (keyAt x) ?_
    · -- the words before the one in question are there
      have hx := Word.below?_eq_some_iff.mp hx
      rw [h, Option.map_eq_none_iff, Word.below?_eq_none_iff] at hnone
      omega
    · rw [h, hx]
      rfl
  · intro hall
    refine Option.eq_none_iff_forall_ne_some.mpr fun ⟨a, v⟩ hb => ?_
    obtain ⟨n, hn, ha, hv, -⟩ := Cache.walk_base hb
    rw [h] at ha
    obtain ⟨x, hx, rfl⟩ := Option.map_eq_some_iff.mp ha
    cases (hall x (Limits.reaches_iff.mpr ⟨n, hn, hx⟩)).symm.trans hv

/-- What is found is the value of the nearest word. -/
theorem nearest_of_walk_base (h : Descends task top keyAt) {a : κ} {v : ν}
    (hb : (q.cache.walk (Task.ancestor? task) q.limits.maxSteps).base = some (a, v)) :
    ∃ x, a = keyAt x ∧ q.Nearest top keyAt x v := by
  obtain ⟨n, hn, ha, hv, hbefore⟩ := Cache.walk_base hb
  rw [h] at ha
  obtain ⟨x, hx, rfl⟩ := Option.map_eq_some_iff.mp ha
  refine ⟨x, rfl, Limits.reaches_iff.mpr ⟨n, hn, hx⟩, hv, fun y hxy hy => ?_⟩
  -- a greater word has come up before
  have hx := Word.below?_eq_some_iff.mp hx
  rw [UInt64.lt_iff_toNat_lt] at hxy hy
  obtain ⟨b, hyb, hnone⟩ := hbefore (top.toNat - 1 - y.toNat) (by omega)
  rw [h, Word.below?_eq_some_iff.mpr (show top.toNat - 1 - y.toNat + 1 + y.toNat = _ by omega)]
    at hyb
  obtain rfl := Option.some.inj hyb
  exact hnone

/-- The base is the value of the nearest word, if there is one. -/
theorem walk_base_eq_some_iff (h : Descends task top keyAt) {a : κ} {v : ν} :
    (q.cache.walk (Task.ancestor? task) q.limits.maxSteps).base = some (a, v)
      ↔ ∃ x, a = keyAt x ∧ q.Nearest top keyAt x v := by
  refine ⟨nearest_of_walk_base h, ?_⟩
  rintro ⟨x, rfl, hx⟩
  rcases hb : (q.cache.walk (Task.ancestor? task) q.limits.maxSteps).base with - | ⟨b, w⟩
  · cases ((walk_base_eq_none_iff h).mp hb x hx.reached).symm.trans hx.cached
  · obtain ⟨y, rfl, hy⟩ := nearest_of_walk_base h hb
    obtain ⟨rfl, rfl⟩ := hx.unique hy
    rfl

/-- If anything within reach is cached, something is the nearest. -/
theorem exists_nearest (h : Descends task top keyAt) {x : UInt64} {v : ν}
    (hx : q.limits.Reaches top x) (hv : q.cache.find? (keyAt x) = some v) :
    ∃ y w, q.Nearest top keyAt y w := by
  rcases hb : (q.cache.walk (Task.ancestor? task) q.limits.maxSteps).base with - | ⟨b, w⟩
  · cases ((walk_base_eq_none_iff h).mp hb x hx).symm.trans hv
  · obtain ⟨y, -, hy⟩ := nearest_of_walk_base h hb
    exact ⟨y, w, hy⟩

/-! ### Launching from the base -/

/-- A request whose key is neither cached nor in flight launches a round, and
of the cache it only promotes the base. -/
theorem request_of_idle (missed : q.cache.find? (Task.key task) = none)
    (idle : q.inFlight.lookup (Task.key task) = none) :
    let w := q.cache.walk (Task.ancestor? task) q.limits.maxSteps
    (q.request task).1 = .launched q.rounds.length w ∧
      (q.request task).2.cache = match w.base with
        | some (a, _) => q.cache.promote a
        | none => q.cache := by
  intro w
  simp only [request, missed, idle]
  refine ⟨rfl, ?_⟩
  show (match w.base with | some (a, v) => _ | none => _ : Queue κ τ ν ε).cache = _
  rcases w.base with - | ⟨a, v⟩ <;> rfl

end Queue

namespace Service

variable [KeyText κ] [Task τ κ ν]

/-- A request launches a round that starts from the nearest cached one of the
words below a word, or from nothing if none within reach is cached. -/
structure LaunchesFromNearest (s : Service κ τ ν ε) (caller : String) (task : τ) (top : UInt64)
    (keyAt : UInt64 → κ) : Prop where
  /-- It is rebased exactly if anything within reach is cached. -/
  rebased_iff : (∃ r probed base,
      (s.step (.perform caller task)).1.answer = .admitted (.launched r ⟨probed, some base⟩))
    ↔ ∃ x v, s.queue.limits.Reaches top x ∧ s.queue.cache.find? (keyAt x) = some v
  /-- One of those is then the nearest. -/
  exists_nearest : ∀ x v, s.queue.limits.Reaches top x → s.queue.cache.find? (keyAt x) = some v →
    ∃ y w, s.queue.Nearest top keyAt y w
  /-- Its base is the nearest, which is the only key that is moved. -/
  rebased : ∀ x v, s.queue.Nearest top keyAt x v →
    (∃ probed, (s.step (.perform caller task)).1.answer
      = .admitted (.launched s.queue.rounds.length ⟨probed, some (keyAt x, v)⟩)) ∧
    (s.step (.perform caller task)).2.queue.Has s.queue.rounds.length
      ⟨Task.key task, Task.rebase task v, .running⟩ ∧
    (s.step (.perform caller task)).2.queue.cache = s.queue.cache.promote (keyAt x) ∧
    (s.step (.perform caller task)).2.queue.cache.keys
      = keyAt x :: s.queue.cache.keys.filter (· ≠ keyAt x)
  /-- Otherwise it is new, and nothing is moved. -/
  fresh : (∀ x, s.queue.limits.Reaches top x → s.queue.cache.find? (keyAt x) = none) →
    (∃ probed, (s.step (.perform caller task)).1.answer
      = .admitted (.launched s.queue.rounds.length ⟨probed, none⟩)) ∧
    (s.step (.perform caller task)).2.queue.Has s.queue.rounds.length
      ⟨Task.key task, task, .running⟩ ∧
    (s.step (.perform caller task)).2.queue.cache = s.queue.cache

theorem launchesFromNearest {s : Service κ τ ν ε} (caller : String) {task : τ} {top : UInt64}
    {keyAt : UInt64 → κ} (h : Descends task top keyAt)
    (missed : s.queue.cache.find? (Task.key task) = none)
    (idle : s.queue.inFlight.lookup (Task.key task) = none) :
    s.LaunchesFromNearest caller task top keyAt := by
  obtain ⟨hlaunched, hcache⟩ := Queue.request_of_idle missed idle
  have hstep : (s.step (.perform caller task)).2.queue.cache = (s.queue.request task).2.cache := by
    rw [step_queue, cache_pollAll]
    rfl
  have hhas := has_launched caller hlaunched
  rw [← hstep] at hcache
  have hanswer : (s.step (.perform caller task)).1.answer = .admitted _ :=
    congrArg Answer.admitted hlaunched
  -- what the search comes to is all that these depend on
  rcases hw : s.queue.cache.walk (Task.ancestor? task) s.queue.limits.maxSteps with ⟨probed, base⟩
  have hbase := congrArg Walk.base hw
  rw [hw] at hhas hcache hanswer
  refine ⟨⟨?_, ?_⟩, fun x v => Queue.exists_nearest h, fun x v hx => ?_, fun hnone => ?_⟩
  · rintro ⟨r, n, ⟨a, v⟩, ha⟩
    rw [hanswer] at ha
    cases ha
    obtain ⟨x, -, hx⟩ := (Queue.walk_base_eq_some_iff h).mp hbase
    exact ⟨x, v, hx.reached, hx.cached⟩
  · rintro ⟨x, v, hx, hv⟩
    obtain ⟨y, w, hy⟩ := Queue.exists_nearest h hx hv
    obtain rfl := hbase.symm.trans ((Queue.walk_base_eq_some_iff h).mpr ⟨y, rfl, hy⟩)
    exact ⟨_, _, _, hanswer⟩
  · obtain rfl := hbase.symm.trans ((Queue.walk_base_eq_some_iff h).mpr ⟨x, rfl, hx⟩)
    exact ⟨⟨probed, hanswer⟩, hhas, hcache, hcache ▸ Cache.keys_promote hx.cached⟩
  · obtain rfl := hbase.symm.trans ((Queue.walk_base_eq_none_iff h).mpr hnone)
    exact ⟨⟨probed, hanswer⟩, hhas, hcache⟩

end Service

/-- **A round starts from the nearest cached ancestor**: a request for a state
that is neither cached nor in flight launches a round.  It is rebased exactly
if a state of the same block at an earlier slot is cached that is not farther
away than the limit; its base is then the value at the greatest such slot,
whose key alone becomes the most recently used one.  Otherwise the round is new
and the cache stays as it is.  The same goes for scripted tasks whose ancestors
are all smaller numbers.

Without a limit every earlier slot is within reach, as no search has more to
look up than the greatest word allows; and that nothing is looked up in an
empty cache leaves out no base. -/
theorem Service.rounds_start_from_the_nearest (σ ε : Type) :
    (∀ (s : Service StateKey (StateTask σ) σ ε) (caller : String) (task : StateTask σ),
      s.queue.cache.find? task.key = none → s.queue.inFlight.lookup task.key = none →
      s.LaunchesFromNearest caller task task.key.slot fun slot => ⟨slot, task.key.root⟩) ∧
    (∀ (s : Service UInt64 Script.Job Script.Value ε) (caller : String) (job : Script.Job),
      job.ancestors = none →
      s.queue.cache.find? job.key = none → s.queue.inFlight.lookup job.key = none →
      s.LaunchesFromNearest caller job job.key id) ∧
    (∀ l : Limits, l.walk = none →
      (∀ top x : UInt64, l.Reaches top x ↔ x < top) ∧
      ∀ (κ ν : Type) [DecidableEq κ] (c : Cache κ ν) (top : UInt64) (keyAt : UInt64 → κ) (n : Nat),
        l.maxSteps ≤ n →
        c.walk (fun i => (Word.below? top i).map keyAt) n
          = c.walk (fun i => (Word.below? top i).map keyAt) l.maxSteps) ∧
    (∀ (κ ν : Type) [DecidableEq κ] (c : Cache κ ν) (ancestor? : Nat → Option κ) (limit : Nat),
      (c.walk ancestor? limit).base = (c.walkFrom ancestor? 0 limit).base) := by
  refine ⟨fun s caller task missed idle => ?_, fun s caller job hjob missed idle => ?_,
    fun l hl => ⟨fun top x => ?_, fun κ ν _ c top keyAt n hn => ?_⟩, fun κ ν _ => Cache.walk_base_eq⟩
  · exact launchesFromNearest caller (descends_stateTask task) missed idle
  · exact launchesFromNearest caller (descends_job hjob) missed idle
  · exact ⟨Limits.Reaches.below, fun h => ⟨h, fun w hw => by cases hl.symm.trans hw⟩⟩
  · have hsteps : l.maxSteps = Word.greatest := by rw [Limits.maxSteps, hl]
    have hends : ∀ j, 0 + l.maxSteps ≤ j → (Word.below? top j).map keyAt = none := by
      intro j hj
      rw [Option.map_eq_none_iff, Word.below?_eq_none_iff]
      have := Word.toNat_le_greatest top
      omega
    rw [Cache.walk, Cache.walk, c.walkFrom_of_exhausted hends hn]

namespace Script

/-- A queue of scripted tasks in which the values of one, three and six are
stored. -/
def threeStored : Service UInt64 Job Value Error :=
  ((Service.fresh .standard none).run
    [.store 1 ⟨⟨1, 0⟩, none⟩, .store 3 ⟨⟨3, 0⟩, none⟩, .store 6 ⟨⟨6, 0⟩, none⟩]).2

/-- The round for five starts from the value of three, which comes to the
front. -/
theorem five_starts_from_three :
    (threeStored.queue.cache.find? 5 = none ∧ threeStored.queue.inFlight.lookup 5 = none) ∧
      let job : Job := ⟨5, .succeed, true, none, none⟩
      (∃ probed, (threeStored.step (.perform "a" job)).1.answer
        = .admitted (.launched 0 ⟨probed, some (3, ⟨⟨3, 0⟩, none⟩)⟩)) ∧
      (threeStored.step (.perform "a" job)).2.queue.cache.keys = [3, 6, 1] := by
  refine ⟨⟨rfl, rfl⟩, ?_⟩
  intro job
  have hnearest : threeStored.queue.Nearest 5 id 3 ⟨⟨3, 0⟩, none⟩ := by
    refine ⟨⟨by decide, ?_⟩, rfl, fun y hy hy' => ?_⟩
    · rintro w ⟨⟩
      decide
    · -- only four lies between
      rw [UInt64.lt_iff_toNat_lt] at hy hy'
      have h3 : (3 : UInt64).toNat = 3 := rfl
      have h5 : (5 : UInt64).toNat = 5 := rfl
      obtain rfl : y = 4 := UInt64.toNat_inj.mp (show y.toNat = 4 by omega)
      rfl
  obtain ⟨hanswer, -, -, hkeys⟩ :=
    ((Service.rounds_start_from_the_nearest Unit Error).2.1 threeStored "a" job rfl rfl rfl).rebased
      3 _ hnearest
  exact ⟨hanswer, hkeys⟩

end Script

end SlotStates
