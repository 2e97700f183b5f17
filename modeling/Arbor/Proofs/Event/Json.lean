import Arbor.Event.Json
import Arbor.Proofs.Json.Reading

/-! # Events survive their lines

A printed event whose numbers are finite is read back, in whatever order its fields stand and
whatever other fields stand among them, as long as those can be read at all. A number that is
not finite has no text, so an event with one is refused.
-/

namespace Arbor

namespace Json

/-- A number is read back from its own text. -/
def ReadsBack (x : Float) : Prop := parse? (real x).compact = some (real x)

theorem ReadsBack.reread {x : Float} (h : ReadsBack x) (depth : Nat) :
    reread? depth (real x) = some (real x) := by
  rw [ReadsBack, parse_compact, reread?] at h
  rw [reread?, h]

def FieldReadable (f : String × Json) : Prop := (parse? (object [f]).compact).isSome = true

theorem fieldReadable_iff {f : String × Json} :
    FieldReadable f ↔ (reread? (maxDepth - 1) f.2).isSome = true := by
  rw [FieldReadable, parse_compact_object, Option.isSome_map, isSome_rereadFields_iff]
  simp

end Json

namespace Event

open Json

def numbers : Event Float → List Float
  | point p _ | marker p _ => [p.x, p.y, p.z]
  | arrow o d l _ => [o.x, o.y, o.z, d.x, d.y, d.z, l]

def fields (e : Event Float) : List (String × Json) :=
  match e.toJson with
  | .object fields => fields
  | _ => []

/-- The names of the fields that an event of this kind may have. -/
def fieldNames : Event Float → List String
  | point _ _ | marker _ _ => ["kind", "position", "color", "marker"]
  | arrow _ _ _ _ => ["kind", "origin", "direction", "length", "color"]

def decode? (line : String) : Option (Event Float) := (parse? line).bind ofJson?

theorem toJson_eq (e : Event Float) : e.toJson = .object e.fields := by cases e <;> rfl

theorem marker_mem_fields_iff (e : Event Float) :
    "marker" ∈ e.fields.map (·.1) ↔ e.isMarker = true := by
  cases e <;> simp [fields, toJson, isMarker]

theorem decode_object (fs : List (String × Json)) :
    decode? (object fs).compact = (rereadFields? (maxDepth - 1) fs).bind ofFields? := by
  rw [decode?, parse_compact_object]
  cases rereadFields? (maxDepth - 1) fs <;> rfl

section Reread

variable {depth : Nat} {v : Vec3 Float} {w : Json}

theorem reread_vectorToJson (depth : Nat) (hx : ReadsBack v.x) (hy : ReadsBack v.y)
    (hz : ReadsBack v.z) : reread? (depth + 1) (vectorToJson v) = some (vectorToJson v) := by
  rw [vectorToJson, reread?]
  iterate 4 rw [rereadItems?]
  rw [hx.reread, hy.reread, hz.reread]
  rfl

theorem isFinite_of_toFloat {x : Float} (h : reread? depth (real x) = some w)
    (hw : w.toFloat?.isSome = true) : x.isFinite = true := by
  by_contra hx
  rw [reread?, if_neg hx] at h
  cases h
  exact absurd hw (by decide)

theorem isFinite_of_vector (depth : Nat) (h : reread? (depth + 1) (vectorToJson v) = some w)
    (hw : (vector? w).isSome = true) :
    v.x.isFinite = true ∧ v.y.isFinite = true ∧ v.z.isFinite = true := by
  rw [vectorToJson, reread?] at h
  iterate 4 rw [rereadItems?] at h
  simp only [Option.map_eq_some_iff, Option.bind_eq_bind, Option.bind_eq_some_iff,
    Option.some.injEq] at h
  obtain ⟨_, ⟨x, hx, _, ⟨y, hy, _, ⟨z, hz, _, rfl, rfl⟩, rfl⟩, rfl⟩, rfl⟩ := h
  obtain ⟨u, hu⟩ := Option.isSome_iff_exists.mp hw
  simp only [vector?, Option.bind_eq_bind, Option.bind_eq_some_iff] at hu
  obtain ⟨_, hx', _, hy', _, hz', -⟩ := hu
  exact ⟨isFinite_of_toFloat hx (Option.isSome_of_eq_some hx'),
    isFinite_of_toFloat hy (Option.isSome_of_eq_some hy'),
    isFinite_of_toFloat hz (Option.isSome_of_eq_some hz')⟩

theorem required_of_reread {fs gs : List (String × Json)} (h : rereadFields? depth fs = some gs)
    {name : String} {u : Json} (hu : valuesOf name fs = [u]) :
    ∃ w, reread? depth u = some w ∧ required? name gs = some w := by
  have hv := rereadItems_valuesOf h name
  rw [hu, rereadItems?, rereadItems?] at hv
  cases hw : reread? depth u with
  | none => simp [hw] at hv
  | some w =>
    simp only [hw, Option.bind_eq_bind, Option.bind_some, Option.some.injEq] at hv
    exact ⟨w, rfl, by rw [required?, ← hv]⟩

theorem required_text {fs gs : List (String × Json)} (h : rereadFields? depth fs = some gs)
    {name s : String} (hs : valuesOf name fs = [text s]) : required? name gs = some (text s) := by
  obtain ⟨w, hw, hr⟩ := required_of_reread h hs
  cases hw
  exact hr

end Reread

theorem vector_vectorToJson (v : Vec3 Float) : vector? (vectorToJson v) = some v := rfl

theorem color_text_toString (c : Color) : color? (text c.toString) = some c := c.parse_toString

/-- Reading looks only at the fields that an event of the kind may have. -/
theorem ofFields_of_valuesOf {e : Event Float} {fs : List (String × Json)}
    (h : ∀ name ∈ e.fieldNames, valuesOf name fs = valuesOf name e.fields) :
    ofFields? fs = some e := by
  cases e with
  | point p c =>
    simp only [fieldNames, List.forall_mem_cons] at h
    obtain ⟨(hk : _ = [text "point"]), (hp : _ = [vectorToJson p]), (hc : _ = [text c.toString]),
      (hm : _ = []), -⟩ := h
    simp [ofFields?, required?, hk, hp, hc, hm, vector_vectorToJson, color_text_toString,
      markerFlag?, ofFlag]
  | marker p c =>
    simp only [fieldNames, List.forall_mem_cons] at h
    obtain ⟨(hk : _ = [text "point"]), (hp : _ = [vectorToJson p]), (hc : _ = [text c.toString]),
      (hm : _ = [Json.bool true]), -⟩ := h
    simp [ofFields?, required?, hk, hp, hc, hm, vector_vectorToJson, color_text_toString,
      markerFlag?, ofFlag]
  | arrow o d l c =>
    simp only [fieldNames, List.forall_mem_cons] at h
    obtain ⟨(hk : _ = [text "arrow"]), (ho : _ = [vectorToJson o]), (hd : _ = [vectorToJson d]),
      (hl : _ = [real l]), (hc : _ = [text c.toString]), -⟩ := h
    simp [ofFields?, required?, hk, ho, hd, hl, hc, vector_vectorToJson, color_text_toString,
      toFloat?]

theorem isFinite_of_decode {e e' : Event Float} (h : decode? e.toJson.compact = some e') :
    ∀ x ∈ e.numbers, x.isFinite = true := by
  rw [toJson_eq, decode_object] at h
  obtain ⟨gs, hr, hread⟩ := Option.bind_eq_some_iff.mp h
  have hpoint (p : Vec3 Float) (hk : valuesOf "kind" e.fields = [text "point"])
      (hp : valuesOf "position" e.fields = [vectorToJson p]) :
      p.x.isFinite = true ∧ p.y.isFinite = true ∧ p.z.isFinite = true := by
    obtain ⟨w, hw, hp⟩ := required_of_reread hr hp
    simp only [ofFields?, required_text hr hk, hp, Option.bind_eq_bind, Option.bind_some] at hread
    obtain ⟨q, hq, -⟩ := Option.bind_eq_some_iff.mp hread
    exact isFinite_of_vector 125 hw (by rw [hq]; rfl)
  cases e with
  | point p c => simpa [numbers] using hpoint p rfl rfl
  | marker p c => simpa [numbers] using hpoint p rfl rfl
  | arrow o d l c =>
    have hk : valuesOf "kind" (arrow o d l c).fields = [text "arrow"] := rfl
    have ho : valuesOf "origin" (arrow o d l c).fields = [vectorToJson o] := rfl
    have hd : valuesOf "direction" (arrow o d l c).fields = [vectorToJson d] := rfl
    have hl : valuesOf "length" (arrow o d l c).fields = [real l] := rfl
    obtain ⟨w₁, hw₁, ho⟩ := required_of_reread hr ho
    obtain ⟨w₂, hw₂, hd⟩ := required_of_reread hr hd
    obtain ⟨w₃, hw₃, hl⟩ := required_of_reread hr hl
    simp only [ofFields?, required_text hr hk, ho, hd, hl, Option.bind_eq_bind,
      Option.bind_some] at hread
    obtain ⟨o', ho', hread⟩ := Option.bind_eq_some_iff.mp hread
    obtain ⟨d', hd', hread⟩ := Option.bind_eq_some_iff.mp hread
    obtain ⟨l', hl', -⟩ := Option.bind_eq_some_iff.mp hread
    have h₁ := isFinite_of_vector 125 hw₁ (by rw [ho']; rfl)
    have h₂ := isFinite_of_vector 125 hw₂ (by rw [hd']; rfl)
    have h₃ := isFinite_of_toFloat hw₃ (by rw [hl']; rfl)
    simp [numbers, h₁, h₂, h₃]

theorem reread_of_mem_fields {e : Event Float} (h : ∀ x ∈ e.numbers, ReadsBack x) :
    ∀ f ∈ e.fields, reread? (maxDepth - 1) f.2 = some f.2 := by
  have htext (s : String) : reread? (maxDepth - 1) (text s) = some (text s) := rfl
  cases e with
  | point p c =>
    simp only [numbers, List.forall_mem_cons] at h
    obtain ⟨hx, hy, hz, -⟩ := h
    simp only [fields, toJson, List.forall_mem_cons]
    exact ⟨htext _, reread_vectorToJson 125 hx hy hz, htext _, by simp⟩
  | marker p c =>
    simp only [numbers, List.forall_mem_cons] at h
    obtain ⟨hx, hy, hz, -⟩ := h
    simp only [fields, toJson, List.forall_mem_cons]
    exact ⟨htext _, reread_vectorToJson 125 hx hy hz, htext _, rfl, by simp⟩
  | arrow o d l c =>
    simp only [numbers, List.forall_mem_cons] at h
    obtain ⟨ox, oy, oz, dx, dy, dz, hl, -⟩ := h
    simp only [fields, toJson, List.forall_mem_cons]
    exact ⟨htext _, reread_vectorToJson 125 ox oy oz, reread_vectorToJson 125 dx dy dz,
      hl.reread _, htext _, by simp⟩

theorem valuesOf_of_perm {e : Event Float} {fs extra : List (String × Json)}
    (h : fs.Perm (e.fields ++ extra)) (he : ∀ f ∈ extra, f.1 ∉ e.fieldNames) {name : String}
    (hn : name ∈ e.fieldNames) : valuesOf name fs = valuesOf name e.fields := by
  have hextra : extra.filter (·.1 == name) = [] := by
    rw [List.filter_eq_nil_iff]
    rintro f hf hfn
    exact he f hf (beq_iff_eq.mp hfn ▸ hn)
  have hperm : (valuesOf name fs).Perm (valuesOf name e.fields) := by
    have hfilter := (h.filter (·.1 == name)).map (·.2)
    rwa [List.filter_append, hextra, List.append_nil] at hfilter
  have honce : ∀ name ∈ e.fieldNames, (valuesOf name e.fields).length ≤ 1 := by
    cases e <;> simp [fieldNames, fields, toJson, valuesOf]
  have hlen := honce name hn
  match hv : valuesOf name e.fields with
  | [] =>
    rw [hv] at hperm
    exact hperm.eq_nil
  | [v] =>
    rw [hv] at hperm
    exact List.perm_singleton.mp hperm
  | _ :: _ :: _ =>
    rw [hv] at hlen
    simp at hlen

/-- A printed event with finite numbers is read back with its fields in any order and among
any other fields that can be read; if one of those cannot be read, nothing is. -/
theorem decode_of_perm {e : Event Float} (hback : ∀ x ∈ e.numbers, ReadsBack x)
    {fs extra : List (String × Json)} (h : fs.Perm (e.fields ++ extra))
    (he : ∀ f ∈ extra, f.1 ∉ e.fieldNames) :
    decode? (object fs).compact = some e ↔ ∀ f ∈ extra, FieldReadable f := by
  have hown := reread_of_mem_fields hback
  constructor
  · intro hd f hf
    rw [decode_object] at hd
    obtain ⟨gs, hr, -⟩ := Option.bind_eq_some_iff.mp hd
    have hall := isSome_rereadFields_iff.mp (Option.isSome_of_eq_some hr)
    exact fieldReadable_iff.mpr (hall f (h.symm.subset (List.mem_append_right _ hf)))
  · intro hx
    have hall : ∀ f ∈ fs, (reread? (maxDepth - 1) f.2).isSome = true := by
      intro f hf
      rcases List.mem_append.mp (h.subset hf) with hf | hf
      · exact Option.isSome_of_eq_some (hown f hf)
      · exact fieldReadable_iff.mp (hx f hf)
    obtain ⟨gs, hr⟩ := Option.isSome_iff_exists.mp (isSome_rereadFields_iff.mpr hall)
    rw [decode_object, hr, Option.bind_some]
    apply ofFields_of_valuesOf
    intro name hn
    have hgs := rereadItems_valuesOf hr name
    have hself : rereadItems? (maxDepth - 1) (valuesOf name e.fields) =
        some (valuesOf name e.fields) := by
      apply rereadItems_of_forall
      intro v hv
      obtain ⟨f, hf, rfl⟩ := List.mem_map.mp hv
      exact hown f (List.mem_of_mem_filter hf)
    rw [valuesOf_of_perm h he hn, hself] at hgs
    exact (Option.some.inj hgs).symm

/-- Events survive their lines. Where the texts of finite numbers read back, an event of
finite numbers is read back from its line, also with its fields in another order and among
fields of other names; those must be such that they can be read, or nothing is read. Only
markers are printed with a `marker` field. An event with another number is refused. -/
theorem line_carries_event (e : Event Float)
    (hback : ∀ x ∈ e.numbers, x.isFinite = true → ReadsBack x) :
    ((∀ x ∈ e.numbers, x.isFinite = true) →
      decode? e.toJson.compact = some e ∧
      ∀ fs extra : List (String × Json), fs.Perm (e.fields ++ extra) →
        (∀ f ∈ extra, f.1 ∉ e.fieldNames) →
        (decode? (object fs).compact = some e ↔ ∀ f ∈ extra, FieldReadable f)) ∧
    ("marker" ∈ e.fields.map (·.1) ↔ e.isMarker = true) ∧
    ((∃ x ∈ e.numbers, x.isFinite = false) → decode? e.toJson.compact = none) := by
  refine ⟨fun hfin => ?_, marker_mem_fields_iff e, ?_⟩
  · have hread : ∀ x ∈ e.numbers, ReadsBack x := fun x hx => hback x hx (hfin x hx)
    have hperm (fs extra : List (String × Json)) (h : fs.Perm (e.fields ++ extra))
        (he : ∀ f ∈ extra, f.1 ∉ e.fieldNames) := decode_of_perm hread h he
    refine ⟨?_, hperm⟩
    rw [toJson_eq, hperm e.fields [] (by rw [List.append_nil]) (by simp)]
    simp
  · rintro ⟨x, hx, hinf⟩
    rw [Option.eq_none_iff_forall_ne_some]
    intro e' he'
    exact absurd ((isFinite_of_decode he' x hx).symm.trans hinf) (by decide)

theorem line_carries_event_marker :
    let e : Event Float := .marker ⟨0, 1.5, -2⟩ Color.green
    let note : String × Json := ("note", .list [.text "resumed"])
    (∀ x ∈ e.numbers, x.isFinite = true ∧ ReadsBack x) ∧
      decode? (object (note :: e.fields)).compact = some e := by
  intro e note
  have hnum : ∀ x ∈ e.numbers, x.isFinite = true ∧ ReadsBack x := by
    simp only [e, numbers, List.forall_mem_cons]
    exact ⟨⟨rfl, rfl⟩, ⟨rfl, rfl⟩, ⟨rfl, rfl⟩, by simp⟩
  have hline := line_carries_event e fun x hx _ => (hnum x hx).2
  obtain ⟨-, hperm⟩ := hline.1 fun x hx => (hnum x hx).1
  have hnote := hperm (note :: e.fields) [note] (List.perm_append_singleton note e.fields).symm
    (by simp [note, e, fieldNames])
  refine ⟨hnum, hnote.mpr ?_⟩
  simp only [List.forall_mem_singleton, fieldReadable_iff]
  rfl

def nested : (depth : Nat) → Json
  | 0 => .list []
  | depth + 1 => .list [nested depth]

theorem reread_nested {depth n : Nat} (h : depth ≤ n) : reread? depth (nested n) = none := by
  induction n generalizing depth with
  | zero =>
    rw [Nat.le_zero.mp h]
    rfl
  | succ n ih =>
    cases depth with
    | zero => rfl
    | succ depth =>
      rw [nested, reread?, rereadItems?, ih (Nat.le_of_succ_le_succ h)]
      rfl

/-- An event is lost beside a field of any other name that nests too deeply. -/
theorem line_loses_event_beside_nested :
    let e : Event Float := .point ⟨0, 0, 0⟩ Color.red
    let deep : String × Json := ("x", nested 199)
    (∀ x ∈ e.numbers, x.isFinite = true ∧ ReadsBack x) ∧ deep.1 ∉ e.fieldNames ∧
      decode? (object (e.fields ++ [deep])).compact = none := by
  intro e deep
  refine ⟨?_, by simp [deep, e, fieldNames], ?_⟩
  · simp only [e, numbers, List.forall_mem_cons]
    exact ⟨⟨rfl, rfl⟩, ⟨rfl, rfl⟩, ⟨rfl, rfl⟩, by simp⟩
  · have hnone : rereadFields? (maxDepth - 1) (e.fields ++ [deep]) = none := by
      rw [← Option.not_isSome_iff_eq_none, isSome_rereadFields_iff]
      intro h
      have hdeep := h deep (by simp)
      rw [show reread? (maxDepth - 1) deep.2 = none from reread_nested (by decide)] at hdeep
      cases hdeep
    rw [decode_object, hnone, Option.bind_none]

end Event

end Arbor
