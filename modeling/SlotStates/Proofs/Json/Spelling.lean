/-
SlotStates/Proofs/Json/Spelling.lean

The ways to write a checkpoint.

A checkpoint can be written as JSON text in many ways: as an object, with its
members in either order, or as an array; with blanks around every token; with
digits of either case in its root, and with or without `0x` in front of them.
A `Spelling` fixes all of these independently of the checkpoint.

Main result: `Checkpoint.reads_every_spelling`.  Every spelling of a checkpoint
is read as this checkpoint, and the text that is written is one of them.
-/
import SlotStates.Json.Checkpoint
import SlotStates.Proofs.Json.Reading

namespace SlotStates

open Json

/-! ### Roots -/

namespace Root

/-- The digits of a root, some of them as capitals. -/
def digits (r : Root) (capital : Nat → Bool) : List Char :=
  (Hex.encode r.bytes).mapIdx fun i c => if capital i then c.toUpper else c

/-- The text of a root with or without `0x`. -/
def spelled (r : Root) (capital : Nat → Bool) (prefixed : Bool) : String :=
  String.ofList (if prefixed then '0' :: 'x' :: r.digits capital else r.digits capital)

/-- Capitals do not change the values of digits. -/
theorem values_digits (r : Root) (capital : Nat → Bool) :
    (r.digits capital).map Hex.value? = (Hex.nibbles r.bytes).map some := by
  apply List.ext_getElem?
  intro i
  rw [List.getElem?_map, List.getElem?_map, digits, List.getElem?_mapIdx, Hex.encode,
    List.getElem?_map]
  rcases hv : (Hex.nibbles r.bytes)[i]? with - | v
  · rfl
  · have hlt : v < 16 := Hex.nibbles_lt v (List.mem_of_getElem? hv)
    cases capital i with
    | true => exact congrArg some (Hex.value?_toUpper hlt)
    | false => exact congrArg some (Hex.value?_digit hlt)

/-- A root is read from each of its texts. -/
theorem ofText_spelled (r : Root) (capital : Nat → Bool) (prefixed : Bool) :
    ofText (r.spelled capital prefixed).toList = .ok r := by
  rw [spelled, String.toList_ofList]
  cases prefixed with
  | true => exact ofDigits_of_values 2 (r.values_digits capital)
  | false => exact ofText_of_values (r.values_digits capital)

/-- A digit needs no escape. -/
theorem plain_of_value? {c : Char} {v : Nat} (h : Hex.value? c = some v) : Plain c := by
  refine ⟨?_, ?_, ?_⟩
  · rintro rfl
    cases h
  · rintro rfl
    cases h
  · have := Hex.range_of_value? h
    omega

/-- No character of a root needs an escape. -/
theorem plain_spelled (r : Root) (capital : Nat → Bool) (prefixed : Bool) :
    ∀ c ∈ (r.spelled capital prefixed).toList, Plain c := by
  have hdigits : ∀ c ∈ r.digits capital, Plain c := fun c hc =>
    plain_of_value? (Hex.exists_value?_of_mem (r.values_digits capital) hc).choose_spec
  rw [spelled, String.toList_ofList]
  cases prefixed with
  | true =>
    refine List.forall_mem_cons.mpr ⟨by decide, ?_⟩
    exact List.forall_mem_cons.mpr ⟨by decide, hdigits⟩
  | false => exact hdigits

/-- The text that is written for a root is one of them. -/
theorem spelled_lower (r : Root) : r.spelled (fun _ => false) true = r.hex := by
  have hdigits : r.digits (fun _ => false) = Hex.encode r.bytes := by
    apply List.ext_getElem?
    simp [digits, List.getElem?_mapIdx]
  rw [← String.toList_inj, hex_toList, spelled, String.toList_ofList, hdigits]
  rfl

end Root

namespace Checkpoint

/-! ### Spellings -/

/-- What a checkpoint is written as: an object with one or the other member
first, or an array. -/
inductive Shape
  | epochFirst
  | rootFirst
  | array

/-- A way to write checkpoints: a shape, blanks for each place around a token,
the digits of the root that are capitals, and whether `0x` precedes them. -/
structure Spelling where
  shape : Shape
  gap : Nat → Blanks
  capital : Nat → Bool
  prefixed : Bool

/-- Tokens with blanks in front of each and behind the last. -/
def spaced (gap : Nat → Blanks) : List String → List Char
  | [] => (gap 0).chars
  | t :: ts => (gap 0).chars ++ (t.toList ++ spaced (fun i => gap (i + 1)) ts)

namespace Spelling

/-- The root of a checkpoint as a JSON string. -/
def root (sp : Spelling) (c : Checkpoint) : String :=
  quote (c.root.spelled sp.capital sp.prefixed)

/-- The tokens of a checkpoint. -/
def tokens (sp : Spelling) (c : Checkpoint) : List String :=
  match sp.shape with
  | .epochFirst =>
    ["\x7b", quote "epoch", ":", Word.decimal c.epoch, ",", quote "root", ":", sp.root c, "\x7d"]
  | .rootFirst =>
    ["\x7b", quote "root", ":", sp.root c, ",", quote "epoch", ":", Word.decimal c.epoch, "\x7d"]
  | .array => ["[", Word.decimal c.epoch, ",", sp.root c, "]"]

/-- The text of a checkpoint in this spelling. -/
def text (sp : Spelling) (c : Checkpoint) : String := String.ofList (spaced sp.gap (sp.tokens c))

/-- An object without blanks, the epoch first and the root in lower case behind
its `0x`. -/
def compact : Spelling := ⟨.epochFirst, fun _ => .nil, fun _ => false, true⟩

/-- What is written is the compact spelling. -/
theorem text_compact (c : Checkpoint) : compact.text c = c.json := by
  have hroot : compact.root c = quote c.root.hex := congrArg quote c.root.spelled_lower
  have htokens : compact.tokens c = ["\x7b", quote "epoch", ":", Word.decimal c.epoch, ",",
      quote "root", ":", quote c.root.hex, "\x7d"] := by
    rw [← hroot]
    rfl
  rw [← String.toList_inj, text, String.toList_ofList, htokens]
  simp [compact, spaced, Blanks.nil, quote, json]

/-! ### Reading them -/

/-- The draft that two members give when the epoch comes first. -/
theorem taken_epochFirst (e : Epoch) {t : Token} {r : Root} (h : Root.ofToken t = .ok r) :
    layout.takeMembers layout.fields layout.blank [("epoch", .number (.unsigned e)), ("root", t)]
      = .ok ⟨some e, some r⟩ := by
  simp [Layout.takeMembers, Layout.takeMember, layout, Word.ofToken, Except.map, Except.bind, h]

/-- The draft that two members give when the root comes first. -/
theorem taken_rootFirst (e : Epoch) {t : Token} {r : Root} (h : Root.ofToken t = .ok r) :
    layout.takeMembers layout.fields layout.blank [("root", t), ("epoch", .number (.unsigned e))]
      = .ok ⟨some e, some r⟩ := by
  simp [Layout.takeMembers, Layout.takeMember, layout, Word.ofToken, Except.map, Except.bind, h]

/-- The draft that two elements give. -/
theorem taken_array (e : Epoch) {t : Token} {r : Root} (h : Root.ofToken t = .ok r) :
    Layout.takeElements layout.blank layout.fields [.number (.unsigned e), t]
      = .ok ⟨some e, some r⟩ := by
  simp [Layout.takeElements, layout, Word.ofToken, Except.map, Except.bind, h]

/-- The epoch of a checkpoint with blanks around it. -/
def epochItem (c : Checkpoint) (before after : Blanks) : Item where
  value := (Word.decimal c.epoch).toList
  token := .number (.unsigned c.epoch)
  reads := reads_word c.epoch
  before := before
  after := after

/-- The root of a checkpoint with blanks around it. -/
def rootItem (sp : Spelling) (c : Checkpoint) (before after : Blanks) : Item where
  value := (sp.root c).toList
  token := .text (c.root.spelled sp.capital sp.prefixed)
  reads := reads_text (c.root.plain_spelled sp.capital sp.prefixed)
  before := before
  after := after

/-- The epoch as a member, with the blanks from place `i` on. -/
def epochMember (sp : Spelling) (c : Checkpoint) (i : Nat) : Member where
  name := "epoch"
  plain := by simp [Plain]
  before := sp.gap i
  after := sp.gap (i + 1)
  item := epochItem c (sp.gap (i + 2)) (sp.gap (i + 3))

/-- The root as a member, with the blanks from place `i` on. -/
def rootMember (sp : Spelling) (c : Checkpoint) (i : Nat) : Member where
  name := "root"
  plain := by simp [Plain]
  before := sp.gap i
  after := sp.gap (i + 1)
  item := sp.rootItem c (sp.gap (i + 2)) (sp.gap (i + 3))

/-- The text of an object with the epoch first, by its members. -/
theorem text_of_epochFirst {sp : Spelling} (h : sp.shape = .epochFirst) (c : Checkpoint) :
    sp.text c = String.ofList ((sp.gap 0).chars ++ '\x7b' ::
      (parted true ([sp.epochMember c 1, sp.rootMember c 5].map Member.chars)
        ++ (Blanks.nil.chars ++ '\x7d' :: (sp.gap 9).chars))) := by
  simp [text, tokens, h, spaced, parted, Member.chars, Item.chars, epochMember, rootMember,
    epochItem, rootItem, Blanks.nil]

/-- The text of an object with the root first, by its members. -/
theorem text_of_rootFirst {sp : Spelling} (h : sp.shape = .rootFirst) (c : Checkpoint) :
    sp.text c = String.ofList ((sp.gap 0).chars ++ '\x7b' ::
      (parted true ([sp.rootMember c 1, sp.epochMember c 5].map Member.chars)
        ++ (Blanks.nil.chars ++ '\x7d' :: (sp.gap 9).chars))) := by
  simp [text, tokens, h, spaced, parted, Member.chars, Item.chars, epochMember, rootMember,
    epochItem, rootItem, Blanks.nil]

/-- The text of an array, by its elements. -/
theorem text_of_array {sp : Spelling} (h : sp.shape = .array) (c : Checkpoint) :
    sp.text c = String.ofList ((sp.gap 0).chars ++ '[' ::
      (parted true ([epochItem c (sp.gap 1) (sp.gap 2), sp.rootItem c (sp.gap 3) (sp.gap 4)].map
        Item.chars) ++ (Blanks.nil.chars ++ ']' :: (sp.gap 5).chars))) := by
  simp [text, tokens, h, spaced, parted, Item.chars, epochItem, rootItem, Blanks.nil]

/-- A root is what the token of each of its texts stands for. -/
theorem ofToken_root (sp : Spelling) (c : Checkpoint) :
    Root.ofToken (.text (c.root.spelled sp.capital sp.prefixed)) = .ok c.root := by
  rw [Root.ofToken, Root.ofText_spelled]
  rfl

/-- The order of the members does not matter, and an array has the epoch
first. -/
theorem read_text (sp : Spelling) (c : Checkpoint) : Checkpoint.read (sp.text c) = .ok c := by
  have hroot := sp.ofToken_root c
  rw [Checkpoint.read]
  cases h : sp.shape with
  | epochFirst =>
    rw [text_of_epochFirst h, Layout.read_object]
    exact congrArg (fun x => ofData (Except.bind x Draft.finish)) (taken_epochFirst c.epoch hroot)
  | rootFirst =>
    rw [text_of_rootFirst h, Layout.read_object]
    exact congrArg (fun x => ofData (Except.bind x Draft.finish)) (taken_rootFirst c.epoch hroot)
  | array =>
    rw [text_of_array h, Layout.read_array _ _ _ _ _ rfl]
    exact congrArg (fun x => ofData (Except.bind x Draft.finish)) (taken_array c.epoch hroot)

/-- A text is a spelling of one checkpoint only. -/
theorem text_injective {sp sp' : Spelling} {c c' : Checkpoint} (h : sp.text c = sp'.text c') :
    c = c' := by
  have hread := sp.read_text c
  rw [h, sp'.read_text c'] at hread
  exact (Except.ok.inj hread).symm

end Spelling

/-- Every text of a checkpoint is read as this checkpoint: the text that is
written, and those with the members in the other order, or the values in an
array, with blanks between the tokens, with capitals among the digits of the
root, and without the `0x` in front of them. -/
theorem reads_every_spelling (c : Checkpoint) :
    read c.json = .ok c ∧ Spelling.compact.text c = c.json
      ∧ ∀ sp : Spelling, read (sp.text c) = .ok c := by
  refine ⟨?_, Spelling.text_compact c, fun sp => sp.read_text c⟩
  rw [← Spelling.text_compact]
  exact Spelling.compact.read_text c

end Checkpoint

end SlotStates
