import Arbor.Event.Summary
import Arbor.Proofs.Binary64.Compare

/-! # Bounds of event lists

The box of an event list fits it: along each axis its sides are the least and the greatest
coordinate of all places that the events touch. So neither the order of the events nor how they
are grouped matters.
-/

namespace Arbor

variable {α β : Type}

/-- Scalars from a set are compared as their values in a total order are. -/
structure Scalar.ComparedBy [Scalar α] [LinearOrder β] (value : α → β) (S : Set α) : Prop where
  lt_iff : ∀ x ∈ S, ∀ y ∈ S, Scalar.lt x y = true ↔ value x < value y
  le_iff : ∀ x ∈ S, ∀ y ∈ S, Scalar.le x y = true ↔ value x ≤ value y

inductive Axis | x | y | z

def Vec3.along (v : Vec3 α) : Axis → α
  | .x => v.x
  | .y => v.y
  | .z => v.z

def Vec3.map (f : α → β) (v : Vec3 α) : Vec3 β := ⟨f v.x, f v.y, f v.z⟩

theorem Vec3.map_eq_map {f : α → β} {v w : Vec3 α} (h : ∀ i, f (v.along i) = f (w.along i)) :
    v.map f = w.map f := by
  rw [map, map, show f v.x = f w.x from h .x, show f v.y = f w.y from h .y,
    show f v.z = f w.z from h .z]

def Box.map (f : α → β) (b : Box α) : Box β := ⟨b.low.map f, b.high.map f⟩

def Summary.map (f : α → β) (s : Summary α) : Summary β :=
  ⟨s.points, s.arrows, s.markers, s.bounds.map (Box.map f)⟩

def Summary.merge [Scalar α] (s t : Summary α) : Summary α :=
  ⟨s.points + t.points, s.arrows + t.arrows, s.markers + t.markers,
    Option.merge Box.join s.bounds t.bounds⟩

namespace Event

def isPoint : Event α → Bool
  | point _ _ => true
  | _ => false

def isArrow : Event α → Bool
  | arrow _ _ _ _ => true
  | _ => false

def touched [Scalar α] (es : List (Event α)) : List (Vec3 α) :=
  es.flatMap fun e => [e.extent.1, e.extent.2]

end Event

/-! ## Outermost scalars -/

/-- One of the scalars, whose value comes before all of theirs. -/
structure Outermost (r : β → β → Prop) (value : α → β) (xs : List α) (x : α) : Prop where
  mem : x ∈ xs
  before : ∀ y ∈ xs, r (value x) (value y)

namespace Outermost

variable {value : α → β} {r : β → β → Prop} {xs ys : List α} {x y z : α}

theorem append [IsTrans β r] (hx : Outermost r value xs x) (hy : Outermost r value ys y)
    (hz : z = x ∨ z = y) (hzx : r (value z) (value x)) (hzy : r (value z) (value y)) :
    Outermost r value (xs ++ ys) z := by
  constructor
  · rcases hz with rfl | rfl
    · exact List.mem_append_left _ hx.mem
    · exact List.mem_append_right _ hy.mem
  · intro a ha
    rcases List.mem_append.mp ha with ha | ha
    · exact IsTrans.trans _ _ _ hzx (hx.before a ha)
    · exact IsTrans.trans _ _ _ hzy (hy.before a ha)

theorem value_eq [Std.Antisymm r] (hx : Outermost r value xs x) (hy : Outermost r value ys y)
    (h : xs.Perm ys) : value x = value y :=
  Std.Antisymm.antisymm _ _ (hx.before y (h.mem_iff.mpr hy.mem))
    (hy.before x (h.mem_iff.mp hx.mem))

variable [Scalar α] [LinearOrder β] {S : Set α}

theorem min (hS : Scalar.ComparedBy value S) (hxs : ∀ x ∈ xs, x ∈ S) (hys : ∀ y ∈ ys, y ∈ S)
    (hx : Outermost (· ≤ ·) value xs x) (hy : Outermost (· ≤ ·) value ys y) :
    Outermost (· ≤ ·) value (xs ++ ys) (Scalar.min x y) := by
  have hxS := hxs x hx.mem
  have hyS := hys y hy.mem
  rw [Scalar.min, Scalar.isNumber, if_pos ((hS.le_iff x hxS x hxS).mpr le_rfl)]
  split
  · next h => exact hx.append hy (.inr rfl) ((hS.lt_iff y hyS x hxS).mp h).le le_rfl
  · next h =>
    exact hx.append hy (.inl rfl) le_rfl (not_lt.mp (mt (hS.lt_iff y hyS x hxS).mpr h))

theorem max (hS : Scalar.ComparedBy value S) (hxs : ∀ x ∈ xs, x ∈ S) (hys : ∀ y ∈ ys, y ∈ S)
    (hx : Outermost (· ≥ ·) value xs x) (hy : Outermost (· ≥ ·) value ys y) :
    Outermost (· ≥ ·) value (xs ++ ys) (Scalar.max x y) := by
  have hxS := hxs x hx.mem
  have hyS := hys y hy.mem
  rw [Scalar.max, Scalar.isNumber, if_pos ((hS.le_iff x hxS x hxS).mpr le_rfl)]
  split
  · next h => exact hx.append hy (.inr rfl) ((hS.lt_iff x hxS y hyS).mp h).le le_rfl
  · next h =>
    exact hx.append hy (.inl rfl) le_rfl (not_lt.mp (mt (hS.lt_iff x hxS y hyS).mpr h))

end Outermost

/-! ## Boxes that fit -/

section Fits

variable [LinearOrder β] {value : α → β} {S : Set α} {a b : Box α} {us vs : List (Vec3 α)}

/-- Along each axis the box reaches from the least to the greatest coordinate of the places. -/
structure Box.Fits (value : α → β) (box : Box α) (vs : List (Vec3 α)) : Prop where
  low : ∀ i, Outermost (· ≤ ·) value (vs.map (·.along i)) (box.low.along i)
  high : ∀ i, Outermost (· ≥ ·) value (vs.map (·.along i)) (box.high.along i)

theorem Box.fits_singleton (value : α → β) (v : Vec3 α) : (⟨v, v⟩ : Box α).Fits value [v] :=
  ⟨fun i => ⟨by simp, by simp⟩, fun i => ⟨by simp, by simp⟩⟩

theorem Box.Fits.join [Scalar α] (hS : Scalar.ComparedBy value S) (ha : a.Fits value us)
    (hb : b.Fits value vs) (hus : ∀ v ∈ us, ∀ i, v.along i ∈ S)
    (hvs : ∀ v ∈ vs, ∀ i, v.along i ∈ S) : (a.join b).Fits value (us ++ vs) := by
  have hu (i : Axis) : ∀ x ∈ us.map (·.along i), x ∈ S :=
    List.forall_mem_map.mpr fun v hv => hus v hv i
  have hv (i : Axis) : ∀ x ∈ vs.map (·.along i), x ∈ S :=
    List.forall_mem_map.mpr fun v hv => hvs v hv i
  constructor
  · intro i
    have h := (ha.low i).min hS (hu i) (hv i) (hb.low i)
    rw [List.map_append]
    cases i <;> exact h
  · intro i
    have h := (ha.high i).max hS (hu i) (hv i) (hb.high i)
    rw [List.map_append]
    cases i <;> exact h

theorem Box.Fits.map_eq (ha : a.Fits value us) (hb : b.Fits value vs) (h : us.Perm vs) :
    a.map value = b.map value := by
  have hlow := Vec3.map_eq_map fun i => (ha.low i).value_eq (hb.low i) (h.map _)
  have hhigh := Vec3.map_eq_map fun i => (ha.high i).value_eq (hb.high i) (h.map _)
  rw [Box.map, Box.map, hlow, hhigh]

theorem Box.Fits.ne_nil (ha : a.Fits value us) : us ≠ [] := by
  rintro rfl
  cases (ha.low .x).mem

/-- The bounds of positions: a box that fits, or none if there are no positions. -/
inductive Bounds (value : α → β) : Option (Box α) → List (Vec3 α) → Prop
  | nil : Bounds value none []
  | box {box : Box α} {places : List (Vec3 α)} :
      box.Fits value places → Bounds value (some box) places

variable {bounds bounds' : Option (Box α)}

theorem Bounds.merge [Scalar α] (hS : Scalar.ComparedBy value S) (ha : Bounds value bounds us)
    (hb : Bounds value bounds' vs) (hus : ∀ v ∈ us, ∀ i, v.along i ∈ S)
    (hvs : ∀ v ∈ vs, ∀ i, v.along i ∈ S) :
    Bounds value (Option.merge Box.join bounds bounds') (us ++ vs) := by
  cases ha with
  | nil => cases hb with
    | nil => exact .nil
    | box hb => exact .box hb
  | box ha => cases hb with
    | nil =>
      rw [List.append_nil]
      exact .box ha
    | box hb => exact .box (ha.join hS hb hus hvs)

theorem Bounds.map_eq (ha : Bounds value bounds us) (hb : Bounds value bounds' vs)
    (h : us.Perm vs) : bounds.map (Box.map value) = bounds'.map (Box.map value) := by
  cases ha with
  | nil => cases hb with
    | nil => rfl
    | box hb => exact absurd h.symm.eq_nil hb.ne_nil
  | box ha => cases hb with
    | nil => exact absurd h.eq_nil ha.ne_nil
    | box hb => exact congrArg some (ha.map_eq hb h)

theorem Bounds.exists_eq_some (h : Bounds value bounds us) (hus : us ≠ []) :
    ∃ box, bounds = some box ∧ box.Fits value us := by
  cases h with
  | nil => exact absurd rfl hus
  | box h => exact ⟨_, rfl, h⟩

end Fits

/-! ## Summaries of lists -/

namespace Summary

variable [Scalar α] [LinearOrder β] {value : α → β} {S : Set α} {s t : Summary α}
variable {es fs : List (Event α)}

/-- The summary counts the events of each kind, and its bounds are those of all positions. -/
structure Sums (value : α → β) (s : Summary α) (es : List (Event α)) : Prop where
  points : s.points = es.countP Event.isPoint
  arrows : s.arrows = es.countP Event.isArrow
  markers : s.markers = es.countP Event.isMarker
  bounds : Bounds value s.bounds (Event.touched es)

theorem sums_singleton (hS : Scalar.ComparedBy value S) (e : Event α)
    (he : ∀ v ∈ Event.touched [e], ∀ i, v.along i ∈ S) : Sums value (Summary.add .empty e) [e] := by
  have hends : ∀ v ∈ [e.extent.1] ++ [e.extent.2], ∀ i, v.along i ∈ S := he
  rw [List.forall_mem_append] at hends
  have hfits : (boxOf e).Fits value (Event.touched [e]) :=
    (Box.fits_singleton value e.extent.1).join hS (Box.fits_singleton value e.extent.2)
      hends.1 hends.2
  cases e <;> exact ⟨rfl, rfl, rfl, .box hfits⟩

theorem touched_append (es fs : List (Event α)) :
    Event.touched (es ++ fs) = Event.touched es ++ Event.touched fs :=
  List.flatMap_append

theorem Sums.merge (hS : Scalar.ComparedBy value S) (hs : Sums value s es) (ht : Sums value t fs)
    (hes : ∀ v ∈ Event.touched es, ∀ i, v.along i ∈ S)
    (hfs : ∀ v ∈ Event.touched fs, ∀ i, v.along i ∈ S) : Sums value (s.merge t) (es ++ fs) := by
  constructor
  · rw [List.countP_append, ← hs.points, ← ht.points, Summary.merge]
  · rw [List.countP_append, ← hs.arrows, ← ht.arrows, Summary.merge]
  · rw [List.countP_append, ← hs.markers, ← ht.markers, Summary.merge]
  · rw [touched_append]
    exact hs.bounds.merge hS ht.bounds hes hfs

theorem add_eq_merge (s : Summary α) (e : Event α) : s.add e = s.merge (Summary.add .empty e) := by
  cases h : s.bounds <;> cases e <;> simp [Summary.add, Summary.merge, Summary.empty, h]

theorem sums_ofEvents (hS : Scalar.ComparedBy value S) (es : List (Event α))
    (hes : ∀ v ∈ Event.touched es, ∀ i, v.along i ∈ S) : Sums value (ofEvents es) es := by
  induction es using List.reverseRecOn with
  | nil => exact ⟨rfl, rfl, rfl, .nil⟩
  | append_singleton es e ih =>
    rw [touched_append, List.forall_mem_append] at hes
    rw [ofEvents, List.foldl_append, List.foldl_cons, List.foldl_nil, add_eq_merge]
    exact (ih hes.1).merge hS (sums_singleton hS e hes.2) hes.1 hes.2

/-- Summaries of the same events in any order have the same counts and, by value, the same box. -/
theorem Sums.map_eq (hs : Sums value s es) (ht : Sums value t fs) (h : es.Perm fs) :
    s.map value = t.map value := by
  rw [Summary.map, Summary.map, hs.points, hs.arrows, hs.markers, ht.points, ht.arrows, ht.markers,
    h.countP_eq, h.countP_eq, h.countP_eq, hs.bounds.map_eq ht.bounds (h.flatMap_right _)]

theorem empty_merge (s : Summary α) : Summary.empty.merge s = s := by
  obtain ⟨points, arrows, markers, bounds⟩ := s
  cases bounds <;> simp [merge, empty]

theorem merge_empty (s : Summary α) : s.merge .empty = s := by
  obtain ⟨points, arrows, markers, bounds⟩ := s
  cases bounds <;> simp [merge, empty]

/-- Let the coordinates that events touch be compared as their values in a total order are. Then
the bounds reach, along each axis, from the least to the greatest of those coordinates. The events
in any other order have the same summary, and a list in two parts has that of the parts merged,
where no events add nothing. -/
theorem ofEvents_bounds_exact (hS : Scalar.ComparedBy value S) (es : List (Event α))
    (hes : ∀ v ∈ Event.touched es, ∀ i, v.along i ∈ S) :
    (es ≠ [] → ∃ box, (ofEvents es).bounds = some box ∧ box.Fits value (Event.touched es)) ∧
      (∀ es', es'.Perm es → (ofEvents es').map value = (ofEvents es).map value) ∧
      (∀ front back, es = front ++ back →
        (ofEvents es).map value = ((ofEvents front).merge (ofEvents back)).map value) ∧
      ∀ s : Summary α, s.merge (ofEvents []) = s ∧ (ofEvents []).merge s = s := by
  have hsums := sums_ofEvents hS es hes
  refine ⟨fun hne => ?_, fun es' hp => ?_, ?_, fun s => ⟨merge_empty s, empty_merge s⟩⟩
  · obtain ⟨e, rest, rfl⟩ := List.exists_cons_of_ne_nil hne
    exact hsums.bounds.exists_eq_some (List.cons_ne_nil _ _)
  · have hes' : ∀ v ∈ Event.touched es', ∀ i, v.along i ∈ S := fun v hv =>
      hes v ((hp.flatMap_right _).mem_iff.mp hv)
    exact (sums_ofEvents hS es' hes').map_eq hsums hp
  · rintro front back rfl
    obtain ⟨hfront, hback⟩ := List.forall_mem_append.mp (touched_append front back ▸ hes)
    exact hsums.map_eq ((sums_ofEvents hS front hfront).merge hS (sums_ofEvents hS back hback)
      hfront hback) (.refl _)

end Summary

theorem Binary64.comparedBy_value :
    Scalar.ComparedBy value {x : Float | x.isFinite = true} :=
  ⟨fun _ hx _ hy => lt_iff hx hy, fun _ hx _ hy => le_iff hx hy⟩

theorem Summary.ofEvents_bounds_exact_segment :
    let es : List (Event Float) :=
      [.point ⟨-1, 0, 2⟩ .red, .marker ⟨-0.0, -2, 0⟩ .green, .arrow .zero .up 3 .yellow]
    (∀ v ∈ Event.touched es, ∀ i, v.along i ∈ {x : Float | x.isFinite = true}) ∧
      (∃ box, (ofEvents es).bounds = some box ∧
        box.Fits Binary64.value (Event.touched es)) ∧
      (ofEvents es.reverse).map Binary64.value = (ofEvents es).map Binary64.value := by
  intro es
  have hall : (Event.touched es).all Vec3.isFinite = true := by decide
  have hes : ∀ v ∈ Event.touched es, ∀ i, v.along i ∈ {x : Float | x.isFinite = true} := by
    intro v hv i
    have h := List.all_eq_true.mp hall v hv
    simp only [Vec3.isFinite, Bool.and_eq_true] at h
    obtain ⟨⟨hx, hy⟩, hz⟩ := h
    cases i <;> assumption
  obtain ⟨hfits, hperm, -⟩ := ofEvents_bounds_exact Binary64.comparedBy_value es hes
  exact ⟨hes, hfits (List.cons_ne_nil _ _), hperm _ es.reverse_perm⟩

end Arbor
