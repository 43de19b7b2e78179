/-
SlotStates/Proofs/Json/LimitsText.lean

Which objects and arrays are limits.

An object is read as limits if its members have the names of the two fields,
neither of them twice, and the values are positive words, or `null` for the
walk (`Limits.Proper`).  Each limit is then the value of its member, or the
standard one if there is no such member, whatever becomes of the other
(`Limits.Given`).  Thus a walk without a limit is always written out.

An array of up to two values is read like the object that gives the first
fields these values (`Limits.InOrder`).

Main result: `Limits.read_as_written`.
-/
import SlotStates.Json.Limits
import SlotStates.Proofs.Json.Offence

namespace SlotStates

open Json

/-! ### Limits and walks -/

theorem Limit.ofNat?_eq_some {n : Nat} {l : Limit} : Limit.ofNat? n = some l ↔ n = l.val := by
  rcases l with ⟨val, pos, hle⟩
  rw [Limit.ofNat?]
  split
  · simp
  · next h =>
    simp only [reduceCtorEq, false_iff]
    rintro rfl
    exact h ⟨pos, hle⟩

theorem Limit.ofToken_eq_ok {t : Token} {l : Limit} :
    Limit.ofToken t = .ok l ↔ ∃ w, t = .number (.unsigned w) ∧ w.toNat = l.val := by
  rw [Limit.ofToken.eq_def]
  split
  · next w =>
    simp only [Token.number.injEq, Number.unsigned.injEq, exists_eq_left', ← Limit.ofNat?_eq_some]
    cases Limit.ofNat? w.toNat <;> simp
  · simp
  · next hne _ =>
    simp only [reduceCtorEq, false_iff]
    rintro ⟨w, rfl, -⟩
    exact hne w rfl

/-- The values that are limits are the positive words. -/
theorem Limit.readAs_eq_ok {v : Value} {l : Limit} :
    v.readAs Limit.ofToken = .ok l ↔ v.natural? = some l.val := by
  simp only [Value.readAs_eq_ok, Limit.ofToken_eq_ok]
  constructor
  · rintro ⟨t, hhead, w, rfl, hw⟩
    rw [Value.head_eq_unsigned.mp hhead, hw]
  · intro hv
    have hw : (UInt64.ofNat l.val).toNat = l.val :=
      UInt64.toNat_ofNat_of_lt' (Nat.lt_succ_of_le l.le_greatest)
    exact ⟨_, Value.head_eq_unsigned.mpr (by rw [hv, hw]), _, rfl, hw⟩

namespace Limits

theorem walkOfToken_eq_ok {t : Token} {w : Option Limit} :
    walkOfToken t = .ok w ↔ t = .null ∧ w = none ∨ ∃ l, Limit.ofToken t = .ok l ∧ w = some l := by
  rw [walkOfToken.eq_def]
  split
  · simp [Limit.ofToken, eq_comm]
  · next hne =>
    have hne : t ≠ .null := hne
    cases Limit.ofToken t <;> simp [Except.map, hne, eq_comm]

/-- The values that are walks are `null` and the positive words. -/
theorem readAs_walk {v : Value} {w : Option Limit} :
    v.readAs walkOfToken = .ok w
      ↔ v = .null ∧ w = none ∨ ∃ l, v.natural? = some l.val ∧ w = some l := by
  simp only [Value.readAs_eq_ok, walkOfToken_eq_ok, ← Limit.readAs_eq_ok, ← Value.head_eq_null]
  constructor
  · rintro ⟨t, hhead, ⟨rfl, hw⟩ | ⟨l, hl, hw⟩⟩
    · exact .inl ⟨hhead, hw⟩
    · exact .inr ⟨l, ⟨t, hhead, hl⟩, hw⟩
  · rintro (⟨hhead, hw⟩ | ⟨l, ⟨t, hhead, hl⟩, hw⟩)
    · exact ⟨_, hhead, .inl ⟨rfl, hw⟩⟩
    · exact ⟨t, hhead, .inr ⟨l, hl, hw⟩⟩

/-- Members with the names of the fields, neither of them twice, and values in
range. -/
structure Proper (ms : List (Named Value)) : Prop where
  known : ∀ m ∈ ms, m.name = .ok "max_cache_size" ∨ m.name = .ok "max_ancestor_walk"
  once : (ms.map Named.name).Nodup
  size : ∀ m ∈ ms, m.name = .ok "max_cache_size" →
    ∃ n, m.value.it.natural? = some n ∧ 1 ≤ n ∧ n ≤ Word.greatest
  walk : ∀ m ∈ ms, m.name = .ok "max_ancestor_walk" →
    m.value.it = .null ∨ ∃ n, m.value.it.natural? = some n ∧ 1 ≤ n ∧ n ≤ Word.greatest

/-- Limits are the values of the members, and the standard ones where there are
none. -/
structure Given (ms : List (Named Value)) (l : Limits) : Prop where
  size : ∀ m ∈ ms, m.name = .ok "max_cache_size" → m.value.it.natural? = some l.cacheSize.val
  walk : ∀ m ∈ ms, m.name = .ok "max_ancestor_walk" →
    m.value.it = .null ∧ l.walk = none ∨ ∃ w, m.value.it.natural? = some w.val ∧ l.walk = some w
  noSize : (∀ m ∈ ms, m.name ≠ .ok "max_cache_size") → l.cacheSize.val = 64
  noWalk : (∀ m ∈ ms, m.name ≠ .ok "max_ancestor_walk") → l.walk.map Limit.val = some 640

/-- Members that give the first fields, in their order, the values of an
array. -/
structure InOrder (vs : List (Placed Value)) (ms : List (Named Value)) : Prop where
  names : ms.map Named.name = (["max_cache_size", "max_ancestor_walk"].take vs.length).map .ok
  values : ms.map (·.value.it) = vs.map (·.it)

/-! ### The layout -/

theorem layout_regular : layout.Regular := by
  refine Layout.regular_of_puts (by decide) (List.forall_mem_cons.mpr ⟨?_, ?_⟩)
  · exact ⟨_, _, _, fun _ _ => rfl, ⟨_, rfl⟩, _, rfl⟩
  · exact List.forall_mem_singleton.mpr ⟨_, _, _, fun _ _ => rfl, ⟨_, rfl⟩, _, rfl⟩

theorem keeps_size : layout.Keeps "max_cache_size" Limit.ofToken id cacheSize where
  own := ⟨_, List.mem_cons_self, rfl, _, fun _ _ => rfl, fun _ _ => rfl⟩
  other := by
    refine List.forall_mem_cons.mpr ⟨fun hne => absurd rfl hne, List.forall_mem_singleton.mpr ?_⟩
    exact fun _ => Field.get_eq ⟨_, _, fun _ _ => rfl, fun _ _ => rfl⟩

theorem keeps_walk : layout.Keeps "max_ancestor_walk" walkOfToken id walk where
  own := ⟨_, List.mem_cons_of_mem _ List.mem_cons_self, rfl, _, fun _ _ => rfl, fun _ _ => rfl⟩
  other := by
    refine List.forall_mem_cons.mpr ⟨?_, List.forall_mem_singleton.mpr fun hne => absurd rfl hne⟩
    exact fun _ => Field.get_eq ⟨_, _, fun _ _ => rfl, fun _ _ => rfl⟩

/-! ### Reading an object -/

section

variable {ms : List (Named Value)}

theorem known_of_accepts {m : Named Value} (h : layout.Accepts m) :
    m.name = .ok "max_cache_size" ∨ m.name = .ok "max_ancestor_walk" := by
  simpa [layout, Layout.names] using h.exists_name

/-- A value is a cache size if it is a number in range. -/
theorem accepts_size {m : Named Value} (hname : m.name = .ok "max_cache_size") :
    layout.Accepts m ↔ ∃ n, m.value.it.natural? = some n ∧ 1 ≤ n ∧ n ≤ Word.greatest := by
  rw [keeps_size.accepts_iff layout_regular hname]
  simp only [Limit.readAs_eq_ok]
  exact ⟨fun ⟨l, h⟩ => ⟨l.val, h, l.pos, l.le_greatest⟩,
    fun ⟨n, h, hpos, hle⟩ => ⟨⟨n, hpos, hle⟩, h⟩⟩

/-- A value is a walk if it is `null` or a number in range. -/
theorem accepts_walk {m : Named Value} (hname : m.name = .ok "max_ancestor_walk") :
    layout.Accepts m ↔ m.value.it = .null
      ∨ ∃ n, m.value.it.natural? = some n ∧ 1 ≤ n ∧ n ≤ Word.greatest := by
  rw [keeps_walk.accepts_iff layout_regular hname]
  simp only [readAs_walk]
  constructor
  · rintro ⟨w, ⟨hv, -⟩ | ⟨l, hv, -⟩⟩
    · exact .inl hv
    · exact .inr ⟨l.val, hv, l.pos, l.le_greatest⟩
  · rintro (hv | ⟨n, hv, hpos, hle⟩)
    · exact ⟨none, .inl ⟨hv, rfl⟩⟩
    · exact ⟨some ⟨n, hpos, hle⟩, .inr ⟨⟨n, hpos, hle⟩, hv, rfl⟩⟩

/-- Proper members are those of which none offends. -/
theorem clean_iff_proper : layout.Clean ms ↔ Proper ms := by
  constructor
  · intro h
    exact
      { known := fun m hm => known_of_accepts (h.accepted m hm)
        once := h.once
        size := fun m hm hname => (accepts_size hname).mp (h.accepted m hm)
        walk := fun m hm hname => (accepts_walk hname).mp (h.accepted m hm) }
  · refine fun h => ⟨h.once, fun m hm => ?_⟩
    rcases h.known m hm with hname | hname
    · exact (accepts_size hname).mpr (h.size m hm hname)
    · exact (accepts_walk hname).mpr (h.walk m hm hname)

/-- The limits that members make are those they give. -/
theorem given_of_takeAll {l : Limits}
    (h : layout.takeAll layout.fields layout.blank ms = .ok l) : Given ms l := by
  have hsize := keeps_size.holds layout_regular h
  have hwalk := keeps_walk.holds layout_regular h
  refine ⟨fun m hm hname => ?_, fun m hm hname => ?_, fun hne => ?_, fun hne => ?_⟩
  · obtain ⟨n, hn, he⟩ := hsize.present m hm hname
    rw [he]
    exact Limit.readAs_eq_ok.mp hn
  · obtain ⟨w, hw, he⟩ := hwalk.present m hm hname
    rw [he]
    exact readAs_walk.mp hw
  · rw [hsize.absent hne]
    rfl
  · rw [hwalk.absent hne]
    rfl

/-- A walk is without a limit only where this is written. -/
theorem Given.walk_eq_none_iff {l : Limits} (h : Given ms l) :
    l.walk = none ↔ ∃ m ∈ ms, m.name = .ok "max_ancestor_walk" ∧ m.value.it = .null := by
  constructor
  · intro hnone
    by_contra hne
    by_cases hwalk : ∃ m ∈ ms, m.name = .ok "max_ancestor_walk"
    · obtain ⟨m, hm, hname⟩ := hwalk
      rcases h.walk m hm hname with ⟨hv, -⟩ | ⟨w, -, hw⟩
      · exact hne ⟨m, hm, hname, hv⟩
      · exact Option.some_ne_none w (hw.symm.trans hnone)
    · have habsent := h.noWalk fun m hm hname => hwalk ⟨m, hm, hname⟩
      rw [hnone] at habsent
      cases habsent
  · rintro ⟨m, hm, hname, hv⟩
    rcases h.walk m hm hname with ⟨-, hw⟩ | ⟨w, hn, -⟩
    · exact hw
    · rw [hv] at hn
      cases hn

theorem read_object (before inside after : Blanks) (ms : List (Named Value)) :
    read (document before (.object ms inside) after)
      = layout.takeAll layout.fields layout.blank ms := by
  rw [read, layout.read_document_object layout_regular.flat]
  cases layout.takeAll layout.fields layout.blank ms <;> rfl

end

/-! ### Reading an array -/

/-- An array is read like the object that names its values. -/
theorem InOrder.read_eq {vs : List (Placed Value)} {ms : List (Named Value)} (h : InOrder vs ms)
    (hlength : vs.length ≤ 2) (before inside after : Blanks) :
    read (document before (.array vs inside) after)
      = layout.takeAll layout.fields layout.blank ms := by
  have hnames : ms.map Named.name = (layout.fields.take vs.length).map (.ok ·.name) := by
    rw [h.names]
    show ((layout.fields.map Field.name).take vs.length).map Except.ok = _
    rw [← List.map_take, List.map_map]
    rfl
  rw [layout.takeAll_of_order layout.fields layout.blank hlength hnames h.values, read,
    layout.read_document_array layout_regular.flat (fun _ => rfl) _ _ _ hlength]
  cases Layout.takeValues layout.blank layout.fields vs <;> rfl

theorem plain_size : ∀ c ∈ "max_cache_size".toList, Plain c := by simp [Plain]

theorem plain_walk : ∀ c ∈ "max_ancestor_walk".toList, Plain c := by simp [Plain]

/-- The values of an array can be named in order. -/
theorem exists_inOrder {vs : List (Placed Value)} (hlength : vs.length ≤ 2) :
    ∃ ms, InOrder vs ms := by
  match vs, hlength with
  | [], _ => exact ⟨[], rfl, rfl⟩
  | [a], _ => exact ⟨[.plain "max_cache_size" plain_size a], by simp [Named.name_plain], rfl⟩
  | [a, b], _ =>
    exact ⟨[.plain "max_cache_size" plain_size a, .plain "max_ancestor_walk" plain_walk b],
      by simp [Named.name_plain], rfl⟩

/-! ### Reading limits -/

/-- An object is read as limits exactly if its members are proper.  Each limit is
then the value of its member or the standard one, and only `null` gives a walk
without a limit.  An array of up to two values is read like the object that
gives the first fields these values.  No limit that is read is zero. -/
theorem read_as_written (before inside after : Blanks) :
    (∀ ms, (∃ l, read (document before (.object ms inside) after) = .ok l) ↔ Proper ms)
      ∧ (∀ ms l, read (document before (.object ms inside) after) = .ok l → Given ms l
          ∧ (l.walk = none ↔ ∃ m ∈ ms, m.name = .ok "max_ancestor_walk" ∧ m.value.it = .null))
      ∧ (∀ vs : List (Placed Value), vs.length ≤ 2 → (∃ ms, InOrder vs ms) ∧ ∀ ms, InOrder vs ms →
          ∀ before' inside' after', read (document before' (.array vs inside') after')
            = read (document before (.object ms inside) after))
      ∧ ∀ text l, read text = .ok l → 0 < l.cacheSize.val ∧ ∀ w, l.walk = some w → 0 < w.val := by
  refine ⟨fun ms => ?_, fun ms l h => ?_, fun vs hlength => ⟨exists_inOrder hlength, ?_⟩,
    fun text l _ => ⟨l.cacheSize.pos, fun w _ => w.pos⟩⟩
  · rw [read_object, ← clean_iff_proper]
    exact ⟨fun ⟨l, h⟩ => Layout.clean_of_takeAll layout_regular h,
      fun h => h.exists_takeAll layout_regular⟩
  · rw [read_object] at h
    have hgiven := given_of_takeAll h
    exact ⟨hgiven, hgiven.walk_eq_none_iff⟩
  · intro ms h before' inside' after'
    rw [read_object, h.read_eq hlength]

/-- The member that says that a walk has no limit. -/
def nullWalk : Named Value := .plain "max_ancestor_walk" plain_walk ⟨.nil, .null, .nil⟩

/-- A walk of `null` alone leaves the cache at its standard size. -/
theorem null_walk_is_unlimited :
    ∃ l, read (document .nil (.object [nullWalk] .nil) .nil) = .ok l
      ∧ l.cacheSize.val = 64 ∧ l.walk = none := by
  obtain ⟨hproper, hgiven, -, -⟩ := read_as_written .nil .nil .nil
  have hname : nullWalk.name = .ok "max_ancestor_walk" := Named.name_plain _ _ _
  obtain ⟨l, hl⟩ := (hproper _).mpr
    { known := List.forall_mem_singleton.mpr (.inr hname)
      once := List.nodup_singleton _
      size := List.forall_mem_singleton.mpr fun h => by simp [hname] at h
      walk := List.forall_mem_singleton.mpr fun _ => .inl rfl }
  obtain ⟨hlimits, hnone⟩ := hgiven _ l hl
  refine ⟨l, hl, hlimits.noSize (List.forall_mem_singleton.mpr fun h => ?_), ?_⟩
  · simp [hname] at h
  · exact hnone.mpr ⟨_, List.mem_singleton_self _, hname, rfl⟩

end Limits

end SlotStates
