/-
SlotStates/Proofs/Json/CheckpointObject.lean

Which objects are checkpoints.

An object is read as a checkpoint if it has exactly two members, one that gives
the epoch and one that gives the root, in either order (`Checkpoint.Written`).
For any other object the fault is that of the first member that offends.  Only
if none does it is asked whether a field is missing, the epoch before the root
(`Checkpoint.Lacks`).

Main result: `Checkpoint.objects_are_read_in_order`.
-/
import Mathlib.Data.List.Permutation
import SlotStates.Json.Checkpoint
import SlotStates.Proofs.Json.Offence

namespace SlotStates

open Json

/-! ### Words and roots -/

theorem Word.ofToken_eq_ok {t : Token} {w : UInt64} :
    Word.ofToken t = .ok w ↔ t = .number (.unsigned w) := by
  rw [Word.ofToken.eq_def]
  split <;> simp_all

theorem Root.ofToken_eq_ok {t : Token} {r : Root} :
    Root.ofToken t = .ok r ↔ ∃ s, t = .text s ∧ Root.ofText s.toList = .ok r := by
  rw [Root.ofToken.eq_def]
  split
  · next s => cases h : Root.ofText s.toList <;> simp [Except.mapError, h]
  · simp_all

/-- The values that are words are the numbers that have neither sign nor
fraction nor exponent and are in range. -/
theorem Word.readAs_eq_ok {v : Value} {w : UInt64} :
    v.readAs Word.ofToken = .ok w ↔ v.natural? = some w.toNat := by
  simp only [Value.readAs_eq_ok, Word.ofToken_eq_ok, exists_eq_right, Value.head_eq_unsigned]

/-- The values that are roots are strings. -/
theorem Root.readAs_eq_ok {v : Value} {r : Root} :
    v.readAs Root.ofToken = .ok r ↔ ∃ s, v.text? = some s ∧ Root.ofText s = .ok r := by
  simp only [Value.readAs_eq_ok, Root.ofToken_eq_ok]
  constructor
  · rintro ⟨t, hhead, s, rfl, hs⟩
    exact ⟨s.toList, Value.head_eq_text.mp hhead, hs⟩
  · rintro ⟨s, hv, hs⟩
    exact ⟨_, Value.head_eq_text.mpr (by rw [hv, String.toList_ofList]), _, rfl,
      by rw [String.toList_ofList, hs]⟩

namespace Checkpoint

/-- Members that are exactly the epoch of a checkpoint and its root. -/
def Written (c : Checkpoint) (ms : List (Named Value)) : Prop :=
  ∃ e r, (ms = [e, r] ∨ ms = [r, e])
    ∧ e.name = .ok "epoch" ∧ e.value.it.natural? = some c.epoch.toNat
    ∧ r.name = .ok "root" ∧ ∃ s, r.value.it.text? = some s ∧ Root.ofText s = .ok c.root

/-- A field has no member, and which one is reported. -/
inductive Lacks (ms : List (Named Value)) : Fault → Prop
  | epoch (absent : ∀ m ∈ ms, m.name ≠ .ok "epoch") : Lacks ms (.data (.missingField "epoch"))
  | root (present : ∃ m ∈ ms, m.name = .ok "epoch") (absent : ∀ m ∈ ms, m.name ≠ .ok "root") :
      Lacks ms (.data (.missingField "root"))

/-! ### The draft -/

theorem layout_regular : layout.Regular := by
  refine Layout.regular_of_puts (by decide) (List.forall_mem_cons.mpr ⟨?_, ?_⟩)
  · exact ⟨_, _, _, fun _ _ => rfl, ⟨_, rfl⟩, _, rfl⟩
  · exact List.forall_mem_singleton.mpr ⟨_, _, _, fun _ _ => rfl, ⟨_, rfl⟩, _, rfl⟩

theorem keeps_epoch : layout.Keeps "epoch" Word.ofToken some Draft.epoch where
  own := ⟨_, List.mem_cons_self, rfl, _, fun _ _ => rfl, fun _ _ => rfl⟩
  other := by
    refine List.forall_mem_cons.mpr ⟨fun hne => absurd rfl hne, List.forall_mem_singleton.mpr ?_⟩
    exact fun _ => Field.get_eq ⟨_, _, fun _ _ => rfl, fun _ _ => rfl⟩

theorem keeps_root : layout.Keeps "root" Root.ofToken some Draft.root where
  own := ⟨_, List.mem_cons_of_mem _ List.mem_cons_self, rfl, _, fun _ _ => rfl, fun _ _ => rfl⟩
  other := by
    refine List.forall_mem_cons.mpr ⟨?_, List.forall_mem_singleton.mpr fun hne => absurd rfl hne⟩
    exact fun _ => Field.get_eq ⟨_, _, fun _ _ => rfl, fun _ _ => rfl⟩

/-! ### Reading an object -/

variable {ms : List (Named Value)}

/-- Members with two names, each of them once, are two members. -/
theorem pair_of_names {a b : Except Fault String} (hab : a ≠ b) (once : (ms.map Named.name).Nodup)
    (known : ∀ m ∈ ms, m.name = a ∨ m.name = b) {x y : Named Value} (hx : x ∈ ms) (ha : x.name = a)
    (hy : y ∈ ms) (hb : y.name = b) : ms = [x, y] ∨ ms = [y, x] := by
  have hne : x ≠ y := fun he => hab (by rw [← ha, ← hb, he])
  have hnodup : [x, y].Nodup := by simp [hne]
  refine List.perm_pair.mp ((List.perm_ext_iff_of_nodup once.of_map hnodup).mpr fun m => ?_)
  rw [List.mem_pair]
  refine ⟨fun hm => ?_, ?_⟩
  · rcases known m hm with hn | hn
    · exact .inl (List.inj_on_of_nodup_map once hm hx (hn.trans ha.symm))
    · exact .inr (List.inj_on_of_nodup_map once hm hy (hn.trans hb.symm))
  · rintro (rfl | rfl)
    · exact hx
    · exact hy

theorem known_of_accepts {m : Named Value} (h : layout.Accepts m) :
    m.name = .ok "epoch" ∨ m.name = .ok "root" := by
  simpa [layout, Layout.names] using h.exists_name

/-- A complete draft comes of its epoch and its root, and of nothing else. -/
theorem takeAll_eq_ok_iff {c : Checkpoint} :
    layout.takeAll layout.fields layout.blank ms = .ok ⟨some c.epoch, some c.root⟩
      ↔ Written c ms := by
  constructor
  · intro h
    have hclean := Layout.clean_of_takeAll layout_regular h
    have hepoch := keeps_epoch.holds layout_regular h
    have hroot := keeps_root.holds layout_regular h
    obtain ⟨e, he, hename⟩ : ∃ m ∈ ms, m.name = .ok "epoch" := by
      simpa using mt (hepoch.eq_none_iff rfl).mpr (Option.some_ne_none c.epoch)
    obtain ⟨r, hr, hrname⟩ : ∃ m ∈ ms, m.name = .ok "root" := by
      simpa using mt (hroot.eq_none_iff rfl).mpr (Option.some_ne_none c.root)
    obtain ⟨w, hevalue, hw⟩ := hepoch.present e he hename
    obtain ⟨w', hrvalue, hw'⟩ := hroot.present r hr hrname
    obtain rfl := Option.some.inj hw
    obtain rfl := Option.some.inj hw'
    have hpair := pair_of_names (by simp) hclean.once
      (fun m hm => known_of_accepts (hclean.accepted m hm)) he hename hr hrname
    exact ⟨e, r, hpair, hename, Word.readAs_eq_ok.mp hevalue, hrname, Root.readAs_eq_ok.mp hrvalue⟩
  · rintro ⟨e, r, hms, hename, hevalue, hrname, hrvalue⟩
    have hevalue := Word.readAs_eq_ok.mpr hevalue
    have hrvalue := Root.readAs_eq_ok.mpr hrvalue
    have hmem : e ∈ ms ∧ r ∈ ms ∧ ∀ m ∈ ms, m = e ∨ m = r := by
      rcases hms with rfl | rfl <;> simp [or_comm]
    have hclean : layout.Clean ms := by
      refine ⟨?_, fun m hm => ?_⟩
      · rcases hms with rfl | rfl <;> simp [hename, hrname]
      · rcases hmem.2.2 m hm with rfl | rfl
        · exact (keeps_epoch.accepts_iff layout_regular hename).mpr ⟨_, hevalue⟩
        · exact (keeps_root.accepts_iff layout_regular hrname).mpr ⟨_, hrvalue⟩
    obtain ⟨d, hd⟩ := hclean.exists_takeAll layout_regular
    obtain ⟨w, hvalue, hw⟩ := (keeps_epoch.holds layout_regular hd).present e hmem.1 hename
    obtain ⟨w', hvalue', hw'⟩ := (keeps_root.holds layout_regular hd).present r hmem.2.1 hrname
    obtain rfl : w = c.epoch := Except.ok.inj (hvalue.symm.trans hevalue)
    obtain rfl : w' = c.root := Except.ok.inj (hvalue'.symm.trans hrvalue)
    rw [hd, ← hw, ← hw']

/-- Where no member offends, the draft lacks what the members lack. -/
theorem finish_eq_error_iff {d : Draft}
    (h : layout.takeAll layout.fields layout.blank ms = .ok d) {e : Fault} :
    ofData (layout.finish d) = .error e ↔ Lacks ms e := by
  have hepoch := (keeps_epoch.holds layout_regular h).eq_none_iff rfl
  have hroot := (keeps_root.holds layout_regular h).eq_none_iff rfl
  constructor
  · intro he
    rcases d with ⟨- | w, - | r⟩
    · obtain rfl := Except.error.inj he
      exact .epoch (hepoch.mp rfl)
    · obtain rfl := Except.error.inj he
      exact .epoch (hepoch.mp rfl)
    · obtain rfl := Except.error.inj he
      exact .root (by simpa using mt hepoch.mpr (Option.some_ne_none w)) (hroot.mp rfl)
    · cases he
  · rintro (habsent | ⟨⟨m, hm, hname⟩, habsent⟩)
    · have hnone := hepoch.mpr habsent
      rcases d with ⟨- | w, r⟩
      · rfl
      · cases hnone
    · have hnone := hroot.mpr habsent
      rcases d with ⟨- | w, - | r⟩
      · exact absurd hname (hepoch.mp rfl m hm)
      · cases hnone
      · rfl
      · cases hnone

/-- An object is read as a checkpoint exactly if its members are the epoch and
the root of this checkpoint, in one or the other order.  Otherwise the fault is
that of the first member that offends; if none does, a field is missing. -/
theorem objects_are_read_in_order (before inside after : Blanks) (ms : List (Named Value)) :
    (∀ c, read (document before (.object ms inside) after) = .ok c ↔ Written c ms)
      ∧ ∀ e, read (document before (.object ms inside) after) = .error e
          ↔ layout.FirstOffence ms e ∨ layout.Clean ms ∧ Lacks ms e := by
  rw [read, layout.read_document_object layout_regular.flat]
  constructor
  · intro c
    rw [← takeAll_eq_ok_iff]
    rcases layout.takeAll layout.fields layout.blank ms with e | ⟨- | w, - | r⟩
    · simp [Except.bind]
    · simp [Except.bind, layout, Draft.finish, ofData, Except.mapError]
    · simp [Except.bind, layout, Draft.finish, ofData, Except.mapError]
    · simp [Except.bind, layout, Draft.finish, ofData, Except.mapError]
    · rcases c with ⟨e, r⟩
      simp [Except.bind, layout, Draft.finish, ofData, Except.mapError]
  · intro e
    rw [← Layout.takeAll_error_iff layout_regular]
    rcases hd : layout.takeAll layout.fields layout.blank ms with fault | d
    · have hclean : ¬ layout.Clean ms := fun h => by
        obtain ⟨d, hd'⟩ := h.exists_takeAll layout_regular
        cases hd.symm.trans hd'
      simp [Except.bind, hclean]
    · have hclean := Layout.clean_of_takeAll layout_regular hd
      simpa [Except.bind, hclean] using finish_eq_error_iff hd

/-- An unknown name is reported although both fields are missing. -/
theorem unknown_name_comes_first :
    read (document .nil (.object
        [.plain "slot" (by simp [Plain]) ⟨.nil, .null, .nil⟩] .nil) .nil)
      = .error (.data (.unknownField "slot" ["epoch", "root"])) := by
  refine ((objects_are_read_in_order .nil .nil .nil _).2 _).mpr (.inl ⟨[], _, [], rfl, ?_, ?_⟩)
  · exact Layout.clean_nil _
  · exact .unknown (Named.name_plain _ _ _) (by decide)

end Checkpoint

end SlotStates
