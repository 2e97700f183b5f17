import Arbor.Camera

/-! # The viewer's plot

One line for every arrow and one series of points for every color, of the events
whose kind is shown. The projection is a parameter.
-/

namespace Arbor

structure Shown where
  ground : Bool
  points : Bool
  arrows : Bool
  markers : Bool
  deriving DecidableEq, Repr

/-- One item of a plot, over the places `β` of the view plane. -/
inductive PlotItem (β : Type) where
  /-- The outline of the ground. -/
  | outline (places : List β)
  | segment (start stop : β) (color : Color)
  | series (color : Color) (places : List β)
  deriving Repr, BEq

namespace Plot

variable {α β : Type}

/-- Places in groups, by the numbers of their colors. -/
structure Groups (β : Type) where
  entries : List (UInt32 × Array β)
  ascending : entries.Pairwise fun a b => a.1 < b.1

namespace Groups

def empty : Groups β := ⟨[], .nil⟩

/-- Puts a place at the end of its group, and a new group between lower and higher ones. -/
def insert (key : UInt32) (place : β) : List (UInt32 × Array β) → List (UInt32 × Array β)
  | [] => [(key, #[place])]
  | (k, places) :: rest =>
    if key < k then (key, #[place]) :: (k, places) :: rest
    else if key = k then (k, places.push place) :: rest
    else (k, places) :: insert key place rest

theorem key_of_mem_insert {key : UInt32} {place : β} {groups : List (UInt32 × Array β)}
    {g : UInt32 × Array β} (h : g ∈ insert key place groups) :
    g.1 = key ∨ ∃ g' ∈ groups, g'.1 = g.1 := by
  fun_induction insert key place groups with
  | case1 => exact .inl (congrArg Prod.fst (List.mem_singleton.mp h))
  | case2 k places rest _ =>
    rcases List.mem_cons.mp h with rfl | h
    · exact .inl rfl
    · exact .inr ⟨g, h, rfl⟩
  | case3 places rest _ =>
    rcases List.mem_cons.mp h with rfl | h
    · exact .inl rfl
    · exact .inr ⟨g, List.mem_cons_of_mem _ h, rfl⟩
  | case4 k places rest _ _ ih =>
    rcases List.mem_cons.mp h with rfl | h
    · exact .inr ⟨_, List.mem_cons_self, rfl⟩
    · refine (ih h).imp_right fun ⟨g', hg', he⟩ => ⟨g', List.mem_cons_of_mem _ hg', he⟩

theorem pairwise_insert (key : UInt32) (place : β) {groups : List (UInt32 × Array β)}
    (h : groups.Pairwise fun a b => a.1 < b.1) :
    (insert key place groups).Pairwise fun a b => a.1 < b.1 := by
  fun_induction insert key place groups with
  | case1 => exact List.pairwise_singleton _ _
  | case2 k places rest hlt =>
    refine h.cons fun g hg => ?_
    rcases List.mem_cons.mp hg with rfl | hg
    · exact hlt
    · exact UInt32.lt_trans hlt (List.rel_of_pairwise_cons h hg)
  | case3 places rest => exact h.of_cons.cons fun g => List.rel_of_pairwise_cons h
  | case4 k places rest hge hne ih =>
    refine (ih h.of_cons).cons fun g hg => ?_
    rcases key_of_mem_insert hg with he | ⟨g', hg', he⟩
    · exact he ▸ UInt32.lt_of_le_of_ne (UInt32.not_lt.mp hge) (Ne.symm hne)
    · exact he ▸ List.rel_of_pairwise_cons h hg'

def add (g : Groups β) (key : UInt32) (place : β) : Groups β :=
  ⟨insert key place g.entries, pairwise_insert key place g.ascending⟩

end Groups

def dot? (shown : Shown) : Event α → Option (Color × Vec3 α)
  | .point p c => if shown.points then some (c, p) else none
  | .marker p c => if shown.markers then some (c, p) else none
  | .arrow _ _ _ _ => none

def seriesOf (project : Vec3 α → β) (dots : List (Color × Vec3 α)) : List (PlotItem β) :=
  let groups := dots.foldl (fun g d => g.add d.1.toHex (project d.2)) Groups.empty
  groups.entries.map fun (key, places) => .series (.ofHex key) places.toList

def segment? [Scalar α] (shown : Shown) (project : Vec3 α → β) : Event α → Option (PlotItem β)
  | .arrow o d l c =>
    if shown.arrows then some (.segment (project o) (project (o + d.scale l)) c) else none
  | _ => none

/-- The items of a plot: the ground, the lines in the order of the events, and the
series in the order of their colors. -/
def items [Scalar α] (shown : Shown) (project : Vec3 α → β) (events : List (Event α)) :
    List (PlotItem β) :=
  let corners := (groundCorners : List (Vec3 α)).map project
  (if shown.ground then [.outline (corners ++ corners.take 1)] else []) ++
    events.filterMap (segment? shown project) ++
    seriesOf project (events.filterMap (dot? shown))

end Plot

end Arbor
