/-
SlotStates/Proofs/Json/Offence.lean

What is wrong with the members of an object, and where.

Members are read from the left, and the reading ends at the first one that
offends: its name is unknown or was there before, or else its value is not
accepted (`Layout.Offence`).  Members of which none offends are `Layout.Clean`,
and this does not depend on their order.

Main results: `Layout.takeAll_error_iff`, the fault of an object is that of the
first member that offends, and `Layout.Clean.exists_takeAll` with
`Layout.clean_of_takeAll`, clean members make a record and no others do.  What
the record holds then, part by part, are the values of the members that are
there (`Layout.Keeps.holds`).
-/
import Mathlib.Data.List.Induction
import Mathlib.Data.List.Nodup
import SlotStates.Proofs.Json.Value

namespace SlotStates.Json

variable {ρ α : Type}

/-- A field puts what a function makes of a token into the record. -/
def Field.Puts {σ : Type} (f : Field ρ) (p : Token → Except DataFault σ) (put : ρ → σ → ρ) : Prop :=
  ∀ t r, f.accept t r = (p t).map (put r)

section

variable {σ : Type} {f : Field ρ} {p : Token → Except DataFault σ} {put : ρ → σ → ρ}
  (h : f.Puts p put) {t : Token} {r : ρ}

include h

theorem Field.Puts.eq_ok {r' : ρ} : f.accept t r = .ok r' ↔ ∃ s, p t = .ok s ∧ put r s = r' := by
  rw [h t r]
  cases p t <;> simp [Except.map]

theorem Field.Puts.take_eq {v : Value} : f.take r v = (v.readAs p).map (put r) := by
  rw [Field.take, ← Value.readAs_map]
  exact congrArg (Value.readAs · v) (funext fun t => h t r)

theorem Field.Puts.eq_error {e : DataFault} : f.accept t r = .error e ↔ p t = .error e := by
  rw [h t r]
  cases p t <;> simp [Except.map]

end

/-- What a field does not put in stays as it was. -/
theorem Field.get_eq {σ τ : Type} {f : Field ρ} {get : ρ → τ}
    (h : ∃ (p : Token → Except DataFault σ) (put : ρ → σ → ρ),
      f.Puts p put ∧ ∀ r s, get (put r s) = get r) (t : Token) (r r' : ρ)
    (ha : f.accept t r = .ok r') : get r' = get r := by
  obtain ⟨p, put, hputs, hget⟩ := h
  obtain ⟨s, -, rfl⟩ := hputs.eq_ok.mp ha
  exact hget r s

namespace Layout

/-- What is read of a record does not depend on the order: the fields differ in
their names, and whether one accepts a token does not depend on the others. -/
structure Regular (l : Layout ρ α) : Prop where
  nodup : l.names.Nodup
  flat : l.Flat
  even : ∀ f ∈ l.fields, ∀ t r e, f.accept t r = .error e → ∀ r', f.accept t r' = .error e

/-- A layout is regular if each field puts in what a function makes of a token,
and this function takes neither arrays nor objects. -/
theorem regular_of_puts {l : Layout ρ α} (hnames : l.names.Nodup)
    (h : ∀ f ∈ l.fields, ∃ (σ : Type) (p : Token → Except DataFault σ) (put : ρ → σ → ρ),
      f.Puts p put ∧ (∃ e, p .openArray = .error e) ∧ ∃ e, p .openObject = .error e) :
    l.Regular where
  nodup := hnames
  flat f hf r := by
    obtain ⟨σ, p, put, hputs, ⟨e, he⟩, e', he'⟩ := h f hf
    exact ⟨⟨e, hputs.eq_error.mpr he⟩, e', hputs.eq_error.mpr he'⟩
  even f hf t r e he r' := by
    obtain ⟨σ, p, put, hputs, -⟩ := h f hf
    exact hputs.eq_error.mpr (hputs.eq_error.mp he)

/-! ### Offences -/

/-- A member is at fault after the ones before it. -/
inductive Offence (l : Layout ρ α) (before : List (Named Value)) (m : Named Value) : Fault → Prop
  /-- Its name cannot be read. -/
  | spelling {e : Fault} (name : m.name = .error e) : Offence l before m e
  /-- Its name is not that of a field. -/
  | unknown {n : String} (name : m.name = .ok n) (new : n ∉ l.names) :
      Offence l before m (.data (.unknownField n l.names))
  /-- Its name was there before. -/
  | repeated {n : String} (name : m.name = .ok n) (field : n ∈ l.names)
      (again : ∃ m' ∈ before, m'.name = .ok n) : Offence l before m (.data (.duplicateField n))
  /-- Its value is not accepted by its field. -/
  | value {f : Field ρ} {e : Fault} (field : f ∈ l.fields) (name : m.name = .ok f.name)
      (first : ∀ m' ∈ before, m'.name ≠ .ok f.name)
      (refused : f.take l.blank m.value.it = .error e) : Offence l before m e

/-- The value of a member is accepted by the field that its name belongs to. -/
def Accepts (l : Layout ρ α) (m : Named Value) : Prop :=
  ∃ f ∈ l.fields, m.name = .ok f.name ∧ ∃ r, f.take l.blank m.value.it = .ok r

/-- The name of an accepted member is that of a field. -/
theorem Accepts.exists_name {l : Layout ρ α} {m : Named Value} (h : l.Accepts m) :
    ∃ n ∈ l.names, m.name = .ok n := by
  obtain ⟨f, hf, hname, -⟩ := h
  exact ⟨f.name, List.mem_map_of_mem hf, hname⟩

/-- Members no two of which have one name, and whose values are accepted. -/
structure Clean (l : Layout ρ α) (ms : List (Named Value)) : Prop where
  once : (ms.map Named.name).Nodup
  accepted : ∀ m ∈ ms, l.Accepts m

/-- The first member that offends does so with this fault. -/
def FirstOffence (l : Layout ρ α) (ms : List (Named Value)) (e : Fault) : Prop :=
  ∃ before m after, ms = before ++ m :: after ∧ l.Clean before ∧ l.Offence before m e

theorem clean_nil (l : Layout ρ α) : l.Clean [] := ⟨List.nodup_nil, by simp⟩

/-- A last name is new if it is not among the names before it. -/
theorem nodup_names_concat {before : List (Named Value)} {m : Named Value} :
    ((before ++ [m]).map Named.name).Nodup
      ↔ (∀ m' ∈ before, m'.name ≠ m.name) ∧ (before.map Named.name).Nodup := by
  rw [List.map_append, List.map_singleton, ← List.concat_eq_append, List.nodup_concat]
  simp only [List.mem_map, not_exists, not_and, ne_eq]

/-- A member that does not offend leaves the members clean. -/
theorem clean_or_offence (l : Layout ρ α) {before : List (Named Value)} (h : l.Clean before)
    (m : Named Value) : l.Clean (before ++ [m]) ∨ ∃ e, l.Offence before m e := by
  rcases hname : m.name with e | n
  · exact .inr ⟨e, .spelling hname⟩
  by_cases hfield : n ∈ l.names
  · by_cases hagain : ∃ m' ∈ before, m'.name = .ok n
    · exact .inr ⟨_, .repeated hname hfield hagain⟩
    have hfirst : ∀ m' ∈ before, m'.name ≠ .ok n := fun m' hm' he => hagain ⟨m', hm', he⟩
    obtain ⟨f, hf, rfl⟩ := List.mem_map.mp hfield
    rcases htake : f.take l.blank m.value.it with e | r
    · exact .inr ⟨e, .value hf hname hfirst htake⟩
    · refine .inl ⟨nodup_names_concat.mpr ⟨hname ▸ hfirst, h.once⟩, fun m' hm' => ?_⟩
      rcases List.mem_append.mp hm' with hm' | hm'
      · exact h.accepted m' hm'
      · obtain rfl := List.mem_singleton.mp hm'
        exact ⟨f, hf, hname, r, htake⟩
  · exact .inr ⟨_, .unknown hname hfield⟩

/-- Members are clean, or one of them is the first that offends. -/
theorem clean_or_firstOffence (l : Layout ρ α) (ms : List (Named Value)) :
    l.Clean ms ∨ ∃ e, l.FirstOffence ms e := by
  induction ms using List.reverseRecOn with
  | nil => exact .inl l.clean_nil
  | append_singleton before m ih =>
    rcases ih with h | ⟨e, before', m', after, rfl, hclean, hoffence⟩
    · rcases l.clean_or_offence h m with h' | ⟨e, hoffence⟩
      · exact .inl h'
      · exact .inr ⟨e, before, m, [], rfl, h, hoffence⟩
    · exact .inr ⟨e, before', m', after ++ [m], by simp, hclean, hoffence⟩

/-! ### Reading members -/

/-- The fields not yet read are those whose names were not there. -/
structure Unread (l : Layout ρ α) (before : List (Named Value)) (unread : List (Field ρ)) :
    Prop where
  sublist : unread.Sublist l.fields
  mem_iff : ∀ f ∈ l.fields, f ∈ unread ↔ ∀ m ∈ before, m.name ≠ .ok f.name

theorem unread_nil (l : Layout ρ α) : l.Unread [] l.fields := ⟨.refl _, by simp⟩

/-- Where names differ, a field is found by its name. -/
theorem find?_name {fs : List (Field ρ)} (h : (fs.map Field.name).Nodup) {f : Field ρ}
    (hf : f ∈ fs) : fs.find? (·.name = f.name) = some f := by
  rcases hfind : fs.find? (·.name = f.name) with - | g
  · exact absurd (decide_eq_true rfl) (List.find?_eq_none.mp hfind f hf)
  · have hname : g.name = f.name := by simpa using List.find?_some hfind
    rw [hfind, List.inj_on_of_nodup_map h (List.mem_of_find?_eq_some hfind) hf hname]

/-- Where names differ, taking out one name leaves the others. -/
theorem mem_eraseP_name {fs : List (Field ρ)} (h : (fs.map Field.name).Nodup) (n : String)
    (g : Field ρ) : g ∈ fs.eraseP (·.name = n) ↔ g ∈ fs ∧ g.name ≠ n := by
  induction fs with
  | nil => simp
  | cons f fs ih =>
    obtain ⟨hnew, hrest⟩ := List.nodup_cons.mp h
    by_cases hn : f.name = n
    · rw [List.eraseP_cons_of_pos (by simpa using hn), List.mem_cons]
      refine ⟨fun hg => ⟨.inr hg, fun he => hnew ?_⟩, fun ⟨hg, hne⟩ => ?_⟩
      · rw [hn, ← he]
        exact List.mem_map_of_mem hg
      · exact hg.resolve_left fun he => hne (he ▸ hn)
    · rw [List.eraseP_cons_of_neg (by simpa using hn), List.mem_cons, List.mem_cons, ih hrest]
      grind

/-- A field that has been read is no longer unread. -/
theorem Unread.snoc {l : Layout ρ α} (hl : l.Regular) {before : List (Named Value)}
    {unread : List (Field ρ)} (h : l.Unread before unread) {m : Named Value} {n : String}
    (hname : m.name = .ok n) : l.Unread (before ++ [m]) (unread.eraseP (·.name = n)) where
  sublist := List.eraseP_sublist.trans h.sublist
  mem_iff g hg := by
    rw [mem_eraseP_name ((h.sublist.map _).nodup hl.nodup), h.mem_iff g hg]
    simp only [List.forall_mem_append, List.forall_mem_singleton, hname, Except.ok.injEq, ne_eq,
      eq_comm]

/-- Whether a value is accepted does not depend on the record. -/
theorem Regular.take_even {l : Layout ρ α} (hl : l.Regular) {f : Field ρ} (hf : f ∈ l.fields)
    {v : Value} {r : ρ} {e : Fault} (h : f.take r v = .error e) (r' : ρ) :
    f.take r' v = .error e := by
  rcases Value.readAs_eq_error.mp h with hhead | ⟨t, fault, hhead, ha, rfl⟩
  · exact Value.readAs_eq_error.mpr (.inl hhead)
  · exact Value.readAs_eq_error.mpr (.inr ⟨t, fault, hhead, hl.even f hf t r fault ha r', rfl⟩)

theorem Regular.take_ok {l : Layout ρ α} (hl : l.Regular) {f : Field ρ} (hf : f ∈ l.fields)
    {v : Value} {r s : ρ} (h : f.take r v = .ok s) (r' : ρ) : ∃ s', f.take r' v = .ok s' := by
  rcases htake : f.take r' v with e | s'
  · rw [hl.take_even hf htake r] at h
    cases h
  · exact ⟨s', rfl⟩

section

variable {l : Layout ρ α} (hl : l.Regular) {before : List (Named Value)} {unread : List (Field ρ)}
  (hunread : l.Unread before unread) {m : Named Value}

include hl hunread

/-- The reading of members ends where one offends. -/
theorem Offence.takeAll {e : Fault} (h : l.Offence before m e) (r : ρ) (ms : List (Named Value)) :
    l.takeAll unread r (m :: ms) = .error e := by
  have hnone {n : String} (hne : ∀ f ∈ unread, f.name ≠ n) : unread.find? (·.name = n) = none :=
    List.find?_eq_none.mpr fun f hf => by simpa using hne f hf
  cases h with
  | spelling hname => exact l.takeAll_fault hname
  | unknown hname hnew =>
    rw [l.takeAll_refused hname (hnone fun f hf hn => hnew ?_), nameFault, if_neg hnew]
    exact hn ▸ List.mem_map_of_mem (hunread.sublist.subset hf)
  | repeated hname hfield hagain =>
    rw [l.takeAll_refused hname (hnone fun f hf hn => ?_), nameFault, if_pos hfield]
    obtain ⟨m', hm', he⟩ := hagain
    exact (hunread.mem_iff f (hunread.sublist.subset hf)).mp hf m' hm' (hn ▸ he)
  | value hfield hname hfirst hrefused =>
    have hfind := find?_name ((hunread.sublist.map _).nodup hl.nodup)
      ((hunread.mem_iff _ hfield).mpr hfirst)
    rw [l.takeAll_taken hname hfind, hl.take_even hfield hrefused r]
    rfl

/-- A member that does not offend is taken by the field of its name. -/
theorem Clean.takeAll (h : l.Clean (before ++ [m])) (r : ρ) (ms : List (Named Value)) :
    ∃ f ∈ l.fields, ∃ r', m.name = .ok f.name ∧ f.take r m.value.it = .ok r'
      ∧ l.takeAll unread r (m :: ms) = l.takeAll (unread.eraseP (·.name = f.name)) r' ms := by
  obtain ⟨f, hf, hname, s, hs⟩ := h.accepted m (by simp)
  obtain ⟨r', hr'⟩ := hl.take_ok hf hs r
  have hfirst : ∀ m' ∈ before, m'.name ≠ .ok f.name := hname ▸ (nodup_names_concat.mp h.once).1
  have hfind := find?_name ((hunread.sublist.map _).nodup hl.nodup)
    ((hunread.mem_iff f hf).mpr hfirst)
  refine ⟨f, hf, r', hname, hr', ?_⟩
  rw [l.takeAll_taken hname hfind, hr']
  rfl

end

theorem Clean.of_append {l : Layout ρ α} {ms ms' : List (Named Value)} (h : l.Clean (ms ++ ms')) :
    l.Clean ms where
  once := by
    have honce := h.once
    rw [List.map_append] at honce
    exact honce.of_append_left
  accepted m hm := h.accepted m (List.mem_append_left ms' hm)

/-- Clean members are taken one after the other.  What holds at first and after
each member that is taken holds in the end. -/
theorem takeAll_run {l : Layout ρ α} (hl : l.Regular) {P : List (Named Value) → ρ → Prop}
    (hstep : ∀ before r, P before r → ∀ m f r', l.Clean (before ++ [m]) → f ∈ l.fields →
      m.name = .ok f.name → f.take r m.value.it = .ok r' → P (before ++ [m]) r')
    {before : List (Named Value)} {unread : List (Field ρ)} {r : ρ}
    (hunread : l.Unread before unread) (hP : P before r) {ms : List (Named Value)}
    (hclean : l.Clean (before ++ ms)) (after : List (Named Value)) :
    ∃ unread' r', l.Unread (before ++ ms) unread' ∧ P (before ++ ms) r'
      ∧ l.takeAll unread r (ms ++ after) = l.takeAll unread' r' after := by
  induction ms generalizing before unread r with
  | nil => exact ⟨unread, r, by simpa using hunread, by simpa using hP, rfl⟩
  | cons m ms ih =>
    rw [List.append_cons] at hclean ⊢
    obtain ⟨f, hf, r', hname, htake, heq⟩ :=
      Clean.takeAll hl hunread hclean.of_append r (ms ++ after)
    rw [List.cons_append, heq]
    exact ih (hunread.snoc hl hname) (hstep before r hP m f r' hclean.of_append hf hname htake)
      hclean

section

variable {l : Layout ρ α} (hl : l.Regular) {ms : List (Named Value)}

include hl

/-- Clean members make a record, and what holds after each of them holds of
it. -/
theorem Clean.exists_record {P : List (Named Value) → ρ → Prop} (hblank : P [] l.blank)
    (hstep : ∀ before r, P before r → ∀ m f r', l.Clean (before ++ [m]) → f ∈ l.fields →
      m.name = .ok f.name → f.take r m.value.it = .ok r' → P (before ++ [m]) r')
    (h : l.Clean ms) : ∃ r, l.takeAll l.fields l.blank ms = .ok r ∧ P ms r := by
  obtain ⟨unread, r, -, hP, heq⟩ := takeAll_run hl hstep l.unread_nil hblank h []
  rw [List.append_nil] at heq
  exact ⟨r, heq, hP⟩

theorem Clean.exists_takeAll (h : l.Clean ms) : ∃ r, l.takeAll l.fields l.blank ms = .ok r := by
  obtain ⟨r, hr, -⟩ := h.exists_record hl (P := fun _ _ => True) trivial
    fun _ _ _ _ _ _ _ _ _ _ => trivial
  exact ⟨r, hr⟩

theorem FirstOffence.takeAll {e : Fault} (h : l.FirstOffence ms e) :
    l.takeAll l.fields l.blank ms = .error e := by
  obtain ⟨before, m, after, rfl, hclean, hoffence⟩ := h
  obtain ⟨unread, r, hunread, -, heq⟩ := takeAll_run hl (P := fun _ _ => True)
    (fun _ _ _ _ _ _ _ _ _ _ => trivial) l.unread_nil trivial hclean (m :: after)
  rw [heq]
  exact hoffence.takeAll hl hunread r after

/-- The fault of an object is that of the first member that offends. -/
theorem takeAll_error_iff {e : Fault} :
    l.takeAll l.fields l.blank ms = .error e ↔ l.FirstOffence ms e := by
  refine ⟨fun h => ?_, fun h => h.takeAll hl⟩
  rcases l.clean_or_firstOffence ms with hclean | ⟨e', he'⟩
  · obtain ⟨r, hr⟩ := hclean.exists_takeAll hl
    rw [hr] at h
    cases h
  · rw [he'.takeAll hl] at h
    exact Except.error.inj h ▸ he'

/-- Only clean members make a record. -/
theorem clean_of_takeAll {r : ρ} (h : l.takeAll l.fields l.blank ms = .ok r) : l.Clean ms := by
  refine (l.clean_or_firstOffence ms).resolve_right fun ⟨e, he⟩ => ?_
  rw [he.takeAll hl] at h
  cases h

end

/-! ### What a record holds -/

/-- A part of the record is put in by the field of a name and by no other. -/
structure Keeps {σ τ : Type} (l : Layout ρ α) (name : String) (p : Token → Except DataFault σ)
    (wrap : σ → τ) (get : ρ → τ) : Prop where
  own : ∃ f ∈ l.fields, f.name = name ∧
    ∃ put : ρ → σ → ρ, f.Puts p put ∧ ∀ r s, get (put r s) = wrap s
  other : ∀ f ∈ l.fields, f.name ≠ name → ∀ t r r', f.accept t r = .ok r' → get r' = get r

/-- A part of a record is the value of the member with its name, or what it was
at first if there is none. -/
structure Holds {σ τ : Type} (l : Layout ρ α) (name : String) (p : Token → Except DataFault σ)
    (wrap : σ → τ) (get : ρ → τ) (ms : List (Named Value)) (r : ρ) : Prop where
  present : ∀ m ∈ ms, m.name = .ok name → ∃ s, m.value.it.readAs p = .ok s ∧ get r = wrap s
  absent : (∀ m ∈ ms, m.name ≠ .ok name) → get r = get l.blank

section

variable {σ τ : Type} {l : Layout ρ α} (hl : l.Regular) {name : String}
  {p : Token → Except DataFault σ} {wrap : σ → τ} {get : ρ → τ}
  (hkeeps : l.Keeps name p wrap get)

include hl hkeeps

/-- Every field of the name is the one that puts in the part. -/
theorem Keeps.puts {f : Field ρ} (hf : f ∈ l.fields) (hname : f.name = name) :
    ∃ put : ρ → σ → ρ, f.Puts p put ∧ ∀ r s, get (put r s) = wrap s := by
  obtain ⟨g, hg, hgname, hputs⟩ := hkeeps.own
  obtain rfl := List.inj_on_of_nodup_map hl.nodup hf hg (hname.trans hgname.symm)
  exact hputs

/-- A member of the name is accepted if its value can be read. -/
theorem Keeps.accepts_iff {m : Named Value} (hname : m.name = .ok name) :
    l.Accepts m ↔ ∃ s, m.value.it.readAs p = .ok s := by
  constructor
  · rintro ⟨f, hf, hfname, r, htake⟩
    obtain ⟨put, hputs, -⟩ := hkeeps.puts hl hf (Except.ok.inj (hfname.symm.trans hname))
    rw [hputs.take_eq] at htake
    rcases hs : m.value.it.readAs p with e | s
    · rw [hs] at htake
      cases htake
    · exact ⟨s, rfl⟩
  · rintro ⟨s, hs⟩
    obtain ⟨f, hf, hfname, put, hputs, -⟩ := hkeeps.own
    exact ⟨f, hf, hfname ▸ hname, put l.blank s, by rw [hputs.take_eq, hs]; rfl⟩

/-- Each member that is taken sets its own part of the record. -/
theorem Holds.snoc {before : List (Named Value)} {r r' : ρ}
    (h : l.Holds name p wrap get before r) {m : Named Value} {f : Field ρ}
    (hclean : l.Clean (before ++ [m])) (hf : f ∈ l.fields) (hname : m.name = .ok f.name)
    (htake : f.take r m.value.it = .ok r') : l.Holds name p wrap get (before ++ [m]) r' := by
  obtain ⟨t, hhead, ha⟩ := Value.readAs_eq_ok.mp htake
  by_cases hn : f.name = name
  · rw [hn] at hname
    refine ⟨fun m' hm' hname' => ?_, fun hne => absurd hname (hne m (by simp))⟩
    rcases List.mem_append.mp hm' with hm' | hm'
    · exact absurd (hname'.trans hname.symm) ((nodup_names_concat.mp hclean.once).1 m' hm')
    · obtain rfl := List.mem_singleton.mp hm'
      obtain ⟨put, hputs, hget⟩ := hkeeps.puts hl hf hn
      obtain ⟨s, hs, rfl⟩ := hputs.eq_ok.mp ha
      exact ⟨s, Value.readAs_eq_ok.mpr ⟨t, hhead, hs⟩, hget r s⟩
  · have hget : get r' = get r := hkeeps.other f hf hn t r r' ha
    refine ⟨fun m' hm' hname' => ?_, fun hne => ?_⟩
    · rcases List.mem_append.mp hm' with hm' | hm'
      · rw [hget]
        exact h.present m' hm' hname'
      · obtain rfl := List.mem_singleton.mp hm'
        exact absurd (Except.ok.inj (hname.symm.trans hname')) hn
    · rw [hget]
      exact h.absent fun m' hm' => hne m' (List.mem_append_left [m] hm')

/-- What a record holds are the values of the members that are there. -/
theorem Keeps.holds {ms : List (Named Value)} {r : ρ}
    (h : l.takeAll l.fields l.blank ms = .ok r) : l.Holds name p wrap get ms r := by
  have hblank : l.Holds name p wrap get [] l.blank := ⟨by simp, fun _ => rfl⟩
  obtain ⟨r', hr', hholds⟩ := (clean_of_takeAll hl h).exists_record hl hblank
    fun before r hholds m f r' => hholds.snoc hl hkeeps
  rw [h] at hr'
  exact Except.ok.inj hr' ▸ hholds

end

/-- A part that is empty at first is empty in the end only if no member has its
name. -/
theorem Holds.eq_none_iff {σ : Type} {l : Layout ρ α} {name : String}
    {p : Token → Except DataFault σ} {get : ρ → Option σ} {ms : List (Named Value)} {r : ρ}
    (h : l.Holds name p some get ms r) (hblank : get l.blank = none) :
    get r = none ↔ ∀ m ∈ ms, m.name ≠ .ok name := by
  refine ⟨fun hnone m hm hname => ?_, fun hne => (h.absent hne).trans hblank⟩
  obtain ⟨s, -, hs⟩ := h.present m hm hname
  exact Option.some_ne_none s (hs.symm.trans hnone)

end Layout

end SlotStates.Json
